import RobotScript.Motion.Heading

/-!
# Kinematic state
-/

namespace RobotScript

/-- Where a robot is, where it faces, how fast its wheels run over the ground, and the radius of
its body. -/
structure Kinematics (α : Type) where
  position : Vec α
  heading : α
  leftSpeed : α
  rightSpeed : α
  size : α

namespace Kinematics

variable {α : Type} [Scalar α]

def forward (k : Kinematics α) : Vec α := Vec.ofAngle k.heading

/-- Average of both wheels. -/
def speed (k : Kinematics α) : α := (k.leftSpeed + k.rightSpeed) / 2.0

def isMoving (k : Kinematics α) : Bool := k.speed != 0.0

/-- Whole degrees anti-clockwise from east. -/
def angle (k : Kinematics α) : Int :=
  (Scalar.round (360.0 - Scalar.degrees k.heading)).emod 360

/-- Whole degrees clockwise from north. -/
def compass (k : Kinematics α) : Int :=
  (Scalar.round (Scalar.degrees k.heading + 90.0)).emod 360

end Kinematics

end RobotScript
