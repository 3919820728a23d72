import RobotScript.Number.Scalar

/-!
# Wheels
-/

namespace RobotScript.Wheel

variable {α : Type} [Scalar α]

/-- Speed over ground of a wheel at `rps` revolutions per second. -/
def speed (diameter rps : α) : α := rps * Scalar.pi * diameter

/-- Revolutions per second that cover `distance` in `seconds`. -/
def rpsNeeded (distance seconds diameter : α) : α :=
  distance / (Scalar.pi * diameter) / seconds

/-- `rps` kept to a size of `limit`. -/
def capRps (limit rps : α) : α :=
  if Scalar.abs rps > limit then Scalar.unit rps * limit else rps

end RobotScript.Wheel
