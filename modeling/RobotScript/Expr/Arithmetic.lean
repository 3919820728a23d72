import RobotScript.Expr.Basic
import RobotScript.Expr.Error

/-!
# Arithmetic and comparison of script values

Integer operations are exact or fail with `overflow`; `//` and `%` round toward negative infinity
and `/` always yields a float. Truth values take part as integers. Texts can be joined and compared
with each other, and nothing else.
-/

namespace RobotScript

/-! ### Integers -/

/-- `n` as a script integer, if it is one. -/
def exact (n : Int) : Except ExprError Value :=
  if Int64.minValue.toInt ≤ n ∧ n ≤ Int64.maxValue.toInt then .ok (.int (.ofInt n))
  else .error .overflow

/-- `a ^ n`. No base beyond one in size has a 64th power that fits, and smaller ones repeat with
the parity of the exponent. -/
def exactPower (a : Int) (n : Nat) : Except ExprError Value :=
  if n < 64 then exact (a.pow n)
  else if a.natAbs ≤ 1 then exact (a.pow (64 + n % 2))
  else .error .overflow

/-! ### Floats -/

def BinaryOp.divides : BinaryOp → Bool
  | .div | .floorDiv | .mod => true
  | _ => false

def BinaryOp.onFloats (op : BinaryOp) (a b : Float) : Except ExprError Value :=
  if op.divides && b == 0.0 then .error .divisionByZero
  else .ok <| .float <| match op with
    | .add => a + b
    | .sub => a - b
    | .mul => a * b
    | .div => a / b
    | .floorDiv => (a / b).floor
    | .mod => a - b * (a / b).floor
    | .pow => a.pow b

/-- The one division whose quotient is out of range. -/
def overflows (a b : Int64) : Bool := a == Int64.minValue && b == -1

/-- The quotient rounded down, from the one rounded toward zero. -/
def floorQuotient (a b : Int64) : Int64 :=
  let q := a / b
  if a % b != 0 && (a < 0) != (b < 0) then q - 1 else q

/-- The remainder with the sign of the divisor, from the one with the sign of the dividend. -/
def floorRemainder (a b : Int64) : Int64 :=
  let r := a % b
  if r != 0 && (r < 0) != (b < 0) then r + b else r

def BinaryOp.onInts (op : BinaryOp) (a b : Int64) : Except ExprError Value :=
  let m := a.toInt
  let n := b.toInt
  let dividing (r : Int64) : Except ExprError Value :=
    if b == 0 then .error .divisionByZero
    else if overflows a b then .error .overflow
    else .ok (.int r)
  match op with
  | .add => exact (m + n)
  | .sub => exact (m - n)
  | .mul => exact (m * n)
  | .div => op.onFloats (.ofInt m) (.ofInt n)
  | .floorDiv => dividing (floorQuotient a b)
  | .mod => dividing (floorRemainder a b)
  | .pow =>
    if 0 ≤ n ∧ n < UInt32.size then exactPower m n.toNat
    else op.onFloats (.ofInt m) (.ofInt n)

/-! ### Values -/

def BinaryOp.apply (op : BinaryOp) (left right : Value) : Except ExprError Value :=
  match op, left, right with
  | .add, .text a, .text b => .ok (.text (a ++ b))
  | _, _, _ =>
    match left.number?, right.number? with
    | some (.int a), some (.int b) => op.onInts a b
    | some a, some b => op.onFloats a.toFloat b.toFloat
    | _, _ => .error (.typeMismatch op.symbol left.kind right.kind)

def UnaryOp.apply (op : UnaryOp) (value : Value) : Except ExprError Value :=
  match op with
  | .not => .ok (.bool !value.truthy)
  | .neg =>
    match value.number? with
    | some (.int i) => exact (-i.toInt)
    | some (.float x) => .ok (.float (-x))
    | none => .error (.badOperand "-" value.kind)
  | .pos =>
    match value.number? with
    | some (.int i) => .ok (.int i)
    | some (.float x) => .ok (.float x)
    | none => .error (.badOperand "+" value.kind)

/-! ### Comparison -/

/-- Order of two floats; an undefined number has none. -/
def orderFloats (a b : Float) : Option Ordering :=
  if a < b then some .lt else if a == b then some .eq else if b < a then some .gt else none

def CompareOp.accepts (op : CompareOp) (order : Ordering) : Bool :=
  match op with
  | .lt => order == .lt
  | .le => order != .gt
  | .gt => order == .gt
  | .ge => order != .lt
  | .eq => order == .eq
  | .ne => order != .eq

/-- Values without an order are unequal. A text and a number have none, and asking for one is a
fault. -/
def CompareOp.apply (op : CompareOp) (left right : Value) : Except ExprError Bool :=
  let among (order : Option Ordering) : Except ExprError Bool :=
    .ok (order.elim (op == .ne) op.accepts)
  match left, right with
  | .text a, .text b => among (some (compare a b))
  | _, _ =>
    match left.number?, right.number? with
    | some (.int a), some (.int b) => among (some (compare a.toInt b.toInt))
    | some a, some b => among (orderFloats a.toFloat b.toFloat)
    | _, _ =>
      if op == .eq then .ok false
      else if op == .ne then .ok true
      else .error (.typeMismatch op.symbol left.kind right.kind)

end RobotScript
