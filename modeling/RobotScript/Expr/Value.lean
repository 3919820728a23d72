import RobotScript.Number.Decimal

/-!
# Script values

What a script variable holds and an expression yields: a 64-bit integer, a double-precision
number, a truth value or a text.
-/

namespace RobotScript

inductive Value where
  | int (i : Int64)
  | float (x : Float)
  | bool (b : Bool)
  | text (s : String)

namespace Value

inductive Kind where
  | int | float | bool | text
deriving DecidableEq, Repr

def Kind.name : Kind → String
  | .int => "int"
  | .float => "float"
  | .bool => "bool"
  | .text => "str"

def kind : Value → Kind
  | .int _ => .int
  | .float _ => .float
  | .bool _ => .bool
  | .text _ => .text

/-- Zero and the empty text count as false; an undefined number does not. -/
def truthy : Value → Bool
  | .int i => i != 0
  | .float x => x != 0.0
  | .bool b => b
  | .text s => !s.isEmpty

/-- What `print` shows. A float without a fraction keeps one decimal place, so that it can be told
from an integer. -/
def display : Value → String
  | .int i => toString i.toInt
  | .float x =>
    match Decimal.whole? (Binary.view64 x) with
    | some digits => digits ++ ".0"
    | none => Decimal.text64 x
  | .bool b => if b then "True" else "False"
  | .text s => s

end Value

/-- The operand of an arithmetic operation; a truth value counts as `0` or `1`. -/
inductive Number where
  | int (i : Int64)
  | float (x : Float)

def Number.toFloat : Number → Float
  | .int i => Float.ofInt i.toInt
  | .float x => x

def Value.number? : Value → Option Number
  | .int i => some (.int i)
  | .float x => some (.float x)
  | .bool b => some (.int (if b then 1 else 0))
  | .text _ => none

end RobotScript
