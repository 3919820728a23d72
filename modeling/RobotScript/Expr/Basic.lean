import RobotScript.Expr.Value
import RobotScript.Expr.Sensor

/-!
# Expressions
-/

namespace RobotScript

inductive UnaryOp where
  | neg | pos | not
deriving DecidableEq, Repr

inductive BinaryOp where
  | add | sub | mul | div | floorDiv | mod | pow
deriving DecidableEq, Repr

def BinaryOp.symbol : BinaryOp → String
  | .add => "+"
  | .sub => "-"
  | .mul => "*"
  | .div => "/"
  | .floorDiv => "//"
  | .mod => "%"
  | .pow => "**"

inductive CompareOp where
  | lt | le | gt | ge | eq | ne
deriving DecidableEq, Repr

def CompareOp.symbol : CompareOp → String
  | .lt => "<"
  | .le => "<="
  | .gt => ">"
  | .ge => ">="
  | .eq => "=="
  | .ne => "!="

/-- `compare first links` is a chain such as `0 < x < 10`: every link compares the operand before
it with its own. -/
inductive Expr where
  | literal (value : Value)
  | variable (name : String)
  | sensor (s : Sensor)
  | unary (op : UnaryOp) (operand : Expr)
  | binary (op : BinaryOp) (left right : Expr)
  | compare (first : Expr) (links : List (CompareOp × Expr))
  | and (left right : Expr)
  | or (left right : Expr)

end RobotScript
