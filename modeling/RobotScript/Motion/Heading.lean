import RobotScript.Motion.Vector

/-!
# Headings

A heading is an angle in radians, zero to the east and growing clockwise on the screen.
-/

namespace RobotScript

inductive Horizontal where
  | left | right | undecided
deriving DecidableEq, Repr

inductive Vertical where
  | up | down | undecided
deriving DecidableEq, Repr

namespace Heading

variable {α : Type} [Scalar α]

/-- A heading in whole degrees from 0 to 359, fractions dropped. -/
def wholeDegrees? (heading : α) : Option Int :=
  if Scalar.isFinite heading then some ((Scalar.trunc (Scalar.degrees heading)).emod 360) else none

/-- 90 to 270 degrees lead left. -/
def horizontal (heading : α) : Horizontal :=
  match wholeDegrees? heading with
  | some d => if 90 ≤ d ∧ d ≤ 270 then .left else .right
  | none => .undecided

/-- 0 to 180 degrees lead down the screen. -/
def vertical (heading : α) : Vertical :=
  match wholeDegrees? heading with
  | some d => if 0 ≤ d ∧ d ≤ 180 then .down else .up
  | none => .undecided

/-- A heading in degrees, folded into a full turn. -/
def foldedDegrees (heading : α) : α := Scalar.fold (Scalar.degrees heading) 360.0

/-- The heading that lies `degrees` clockwise from east. -/
def ofDegrees (degrees : α) : α := Scalar.radians (Scalar.fold degrees 360.0)

/-- A heading turned by `angle` and folded into a full turn. -/
def turn (heading angle : α) : α := Scalar.fold (heading + angle) Scalar.tau

end Heading

end RobotScript
