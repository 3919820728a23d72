import RobotScript.Number.Decimal

/-!
# Documents

The tree of a JSON text. Numbers are kept as they were written, since an integer with a point or an
exponent in it is not taken for one, and members keep their order and their repetitions.
-/

namespace RobotScript

/-- A written number `± mantissa · 10 ^ exponent`. It is `plain` when it has neither a point nor an
exponent. -/
structure WrittenNumber where
  negative : Bool
  plain : Bool
  magnitude : Decimal.Numeral
deriving Repr, DecidableEq

/-- A text is `garbled` when its escapes spell no characters; a member with such a name has none.
They can be passed over, but not read. -/
inductive Document where
  | null
  | bool (b : Bool)
  | number (n : WrittenNumber)
  | text (s : String)
  | garbled
  | list (items : List Document)
  | object (members : List (Option String × Document))

namespace WrittenNumber

/-- The integer a plain number stands for. Minus zero is not one, and neither is a number that
fits no 64-bit word. -/
def int? (n : WrittenNumber) : Option Int :=
  let m := n.magnitude.mantissa
  if !n.plain then none
  else if n.negative then
    if 0 < m ∧ m ≤ Int64.minValue.toInt.natAbs then some (-m) else none
  else if m < UInt64.size then some m else none

/-- The value in double precision, unless it is too large for it. -/
def toFloat? (n : WrittenNumber) : Option Float :=
  let x := n.magnitude.toFloat
  if x.isFinite then some (if n.negative then -x else x) else none

end WrittenNumber

namespace Document

def int? (lo hi : Int) : Document → Option Int
  | .number n => n.int?.filter fun i => lo ≤ i && i ≤ hi
  | _ => none

/-- The natural number of at most `hi` that a document is. -/
def nat? (hi : Nat) (d : Document) : Option Nat := (d.int? 0 hi).map Int.toNat

/-- A number in double precision, then rounded to single precision. -/
def narrow (x : Float) : Float32 :=
  match Binary.view64 x with
  | .finite s m e _ => Binary.round32 s m e
  | .zero s => Binary.round32 s 0 0
  | .infinity s => .ofModel (.pack (.infinity s))
  | .notANumber => 0.0 / 0.0

/-- A number in single precision. An integer is rounded once, any other number by way of double
precision. -/
def float32? : Document → Option Float32
  | .number n =>
    match n.int? with
    | some i => some (Float32.ofInt i)
    | none => n.toFloat?.map narrow
  | _ => none

end Document

end RobotScript
