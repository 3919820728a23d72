import RobotScript.Motion.Vector

/-!
# Straight paths
-/

namespace RobotScript

/-- The line `y = slope * x + intercept`. -/
structure StraightPath (α : Type) where
  slope : α
  intercept : α

namespace StraightPath

variable {α : Type} [Scalar α]

/-- The line through `point` in direction `heading`. -/
def through (heading : α) (point : Vec α) : StraightPath α :=
  let slope := Scalar.tan heading
  ⟨slope, point.y - slope * point.x⟩

/-- Slopes closer than this make parallel lines. -/
def parallelSlopes : α := 1.1920929e-7

/-- Where two lines meet, unless they are parallel or meet too far out. -/
def crossing? (a b : StraightPath α) : Option (Vec α) :=
  let divisor := b.slope - a.slope
  if Scalar.abs divisor ≤ parallelSlopes || !Scalar.isFinite divisor then none
  else
    let x := (a.intercept - b.intercept) / divisor
    let point : Vec α := ⟨x, a.intercept + a.slope * x⟩
    if point.isFinite then some point else none

end StraightPath

end RobotScript
