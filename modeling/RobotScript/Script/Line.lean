import RobotScript.Script.Stmt

/-!
# Script lines

A line that is not blank, with its indentation measured, and what its first word makes of it.
-/

namespace RobotScript

structure Line where
  number : Nat
  indent : Nat
  text : String
deriving Repr, DecidableEq

def isIndent (c : Char) : Bool := c == ' ' || c == '\t'

/-- The columns of the spaces and tabs that `cs` starts with, and the rest. Columns are counted in
64 bits. -/
def measureIndent (tabWidth : Nat) (cs : List Char) : Nat × List Char :=
  let (blanks, rest) := cs.span isIndent
  let columns := blanks.foldl (fun n c => n + if c == '\t' then tabWidth else 1) 0
  (columns % UInt64.size, rest)

/-- What follows the keyword `word` at the start of `cs`. A letter right after it makes it part of
a longer word. -/
def afterKeyword? (word : String) (cs : List Char) : Option (List Char) :=
  (Text.afterWord? cs word.toList).filter fun rest => !rest.head?.any Char.isAlpha

/-- Whether the keyword `word` stands alone in `cs`. -/
def isBareKeyword (word : String) (cs : List Char) : Bool :=
  (afterKeyword? word cs).any Text.allBlank

/-! ### Statements of one line -/

def isIdentifier : List Char → Bool
  | [] => false
  | c :: cs => isNameStart c && cs.all isNameChar

/-- The statement `set name = value` behind its keyword. -/
def Stmt.ofSet (line : Nat) (rest : List Char) : Stmt :=
  match rest.dropWhile (· != '=') with
  | [] => .invalid line .badSet
  | _ :: value =>
    let name := Text.trim (rest.takeWhile (· != '='))
    if isIdentifier name then
      match Expr.ofText value with
      | .ok e => .set line (String.ofList name) e
      | .error e => .invalid line (.expression e)
    else .invalid line (.badName (String.ofList name))

/-- The statement `print value` behind its keyword; nothing to print is the empty text. -/
def Stmt.ofPrint (line : Nat) (newline : Bool) (rest : List Char) : Stmt :=
  if Text.allBlank rest then .print line newline (.literal (.text ""))
  else
    match Expr.ofText rest with
    | .ok e => .print line newline e
    | .error e => .invalid line (.expression e)

/-! ### Kinds of lines -/

/-- What a line opens or closes; every other line is a statement by itself. -/
inductive Line.Kind where
  | branch (condition : Condition)
  | loop (condition : Condition)
  | forever
  | otherwise
  | opening
  | closing
  | single (stmt : Stmt)

def Line.kind (l : Line) : Line.Kind :=
  let cs := l.text.toList
  if let some rest := afterKeyword? "if" cs then .branch (Expr.ofText rest)
  else if let some rest := afterKeyword? "while" cs then .loop (Expr.ofText rest)
  else if isBareKeyword "forever" cs then .forever
  else if isBareKeyword "else" cs then .otherwise
  else if isBareKeyword "begin" cs then .opening
  else if isBareKeyword "end" cs then .closing
  else if isBareKeyword "break" cs then .single (.leave l.number)
  else if isBareKeyword "continue" cs then .single (.again l.number)
  else if let some rest := afterKeyword? "set" cs then .single (.ofSet l.number rest)
  else if let some rest := afterKeyword? "println" cs then .single (.ofPrint l.number true rest)
  else if let some rest := afterKeyword? "print" cs then .single (.ofPrint l.number false rest)
  else .single (.command l.number l.text)

def Line.isElse (l : Line) : Bool := isBareKeyword "else" l.text.toList

def Line.isBegin (l : Line) : Bool := isBareKeyword "begin" l.text.toList

def Line.isEnd (l : Line) : Bool := isBareKeyword "end" l.text.toList

end RobotScript
