import RobotScript.Number.Trigonometry

/-!
# Scalars

The operations that motion is computed with. Every formula for lines, arcs, walls and wheels is
written once over a `Scalar`; robots run on single precision.
-/

namespace RobotScript

/-- Numbers with the order, the roots and the angles that plane motion needs. -/
class Scalar (α : Type) extends
    Add α, Sub α, Mul α, Div α, Neg α, LT α, LE α, BEq α, OfScientific α where
  decLt : DecidableLT α
  decLe : DecidableLE α
  ofNat : Nat → α
  abs : α → α
  /-- One, with the sign of the argument. -/
  unit : α → α
  sqrt : α → α
  sin : α → α
  cos : α → α
  tan : α → α
  /-- `atan2 y x` is the angle of the point `(x, y)`. -/
  atan2 : α → α → α
  pi : α
  degreesPerRadian : α
  /-- `fold a b` brings `a` into the interval from zero to `b` by whole multiples of `b`. -/
  fold : α → α → α
  isFinite : α → Bool
  /-- The integer left after dropping the fraction. -/
  trunc : α → Int
  /-- The closest integer, halves going away from zero. -/
  round : α → Int

namespace Scalar

variable {α : Type} [Scalar α]

instance : DecidableLT α := decLt
instance : DecidableLE α := decLe

/-- A full turn. -/
def tau : α := 2.0 * pi

def radians (degrees : α) : α := degrees * (pi / 180.0)

def degrees (radians : α) : α := radians * degreesPerRadian

/-- The greater of two numbers; the second one unless the first is known to be greater. -/
def upper (a b : α) : α := if a > b then a else b

/-- The lesser of two numbers; the second one unless the first is known to be less. -/
def lower (a b : α) : α := if a < b then a else b

end Scalar

instance : Scalar Float32 where
  decLt := inferInstance
  decLe := inferInstance
  ofNat := Float32.ofNat
  abs := Float32.abs
  unit := Binary.unit32
  sqrt := Float32.sqrt
  sin := Trigonometry.sin
  cos := Trigonometry.cos
  tan := Trigonometry.tan
  atan2 := Trigonometry.atan2
  pi := 3.14159265
  degreesPerRadian := 57.2957795
  fold := Binary.fold32
  isFinite := Float32.isFinite
  trunc x := Binary.truncInt64 (Binary.view32 x)
  round x := Binary.nearestInt64 (Binary.view32 x)

end RobotScript
