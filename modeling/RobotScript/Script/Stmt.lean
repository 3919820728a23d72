import RobotScript.Expr.Parser

/-!
# Statements
-/

namespace RobotScript

/-- Why a statement could not be read. -/
inductive StmtError where
  | badSet
  | badName (name : String)
  | expression (e : ExprError)

def StmtError.message : StmtError → String
  | .badSet => "expected something of the form <var>=<expr>"
  | .badName name => "`" ++ name ++ "` is not a valid variable name"
  | .expression e => e.message

/-- A condition that could not be read is kept, to be reported when it is reached. -/
abbrev Condition := Except ExprError Expr

/-- A statement with the number of its line. A `group` that is not `closed` lacks its `end`;
`strayEnd` and `strayElse` belong to nothing, and the body of a stray `else` is dropped. -/
inductive Stmt where
  | branch (line : Nat) (condition : Condition) (body : List Stmt) (otherwise : Option (List Stmt))
  | loop (line : Nat) (condition : Condition) (body : List Stmt)
  | forever (line : Nat) (body : List Stmt)
  | group (line : Nat) (closed : Bool) (body : List Stmt)
  | leave (line : Nat)
  | again (line : Nat)
  | strayEnd (line : Nat)
  | strayElse (line : Nat)
  | set (line : Nat) (name : String) (value : Expr)
  | print (line : Nat) (newline : Bool) (value : Expr)
  | command (line : Nat) (text : String)
  | invalid (line : Nat) (error : StmtError)

def Stmt.line : Stmt → Nat
  | .branch line _ _ _ | .loop line _ _ | .forever line _ | .group line _ _ | .leave line
  | .again line | .strayEnd line | .strayElse line | .set line _ _ | .print line _ _
  | .command line _ | .invalid line _ => line

end RobotScript
