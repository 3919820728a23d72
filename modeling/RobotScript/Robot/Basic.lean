import RobotScript.Motion.Kinematics
import RobotScript.Motion.Wheel
import RobotScript.Robot.Appearance
import RobotScript.Settings.Basic

/-!
# Robots

Every change of a robot's motion goes through `Robot.update`, which keeps the robot inside the
margin of its arena.
-/

namespace RobotScript

structure Robot (α : Type) where
  name : String
  arena : Rect α
  wallMargin : α
  wheelDiameter : α
  wheelMaxRps : α
  motion : Kinematics α
  color : Color
  mood : Mood
  status : Status

/-- What a robot is built from. -/
structure Robot.Spec (α : Type) where
  name : String
  color : Color
  position : Vec α
  heading : α
  size : α

namespace Robot

variable {α : Type} [Scalar α]

/-- Where a robot ends up that would like to be at `position`. -/
def clamp (r : Robot α) (position : Vec α) : Vec α := r.arena.clamp r.wallMargin position

def update (r : Robot α) (change : Kinematics α → Kinematics α) : Robot α :=
  let k := change r.motion
  { r with motion := { k with position := r.clamp k.position } }

def new (spec : Spec α) (arena : Rect α) (s : Settings α) : Robot α :=
  let r : Robot α :=
    { name := spec.name
      arena := arena
      wallMargin := s.wallMargin
      wheelDiameter := s.wheelDiameter
      wheelMaxRps := s.wheelMaxRps
      motion := ⟨spec.position, spec.heading, 0.0, 0.0, spec.size⟩
      color := spec.color
      mood := .happy
      status := .stopped }
  r.update id

def contains (r : Robot α) (position : Vec α) : Bool := r.arena.contains position

def setPosition (r : Robot α) (position : Vec α) : Robot α :=
  r.update fun k => { k with position := position }

def setHeading (r : Robot α) (heading : α) : Robot α :=
  r.update fun k => { k with heading := heading }

def setWheelSpeeds (r : Robot α) (left right : α) : Robot α :=
  r.update fun k => { k with leftSpeed := left, rightSpeed := right }

/-- Sets both wheels in revolutions per second, capped at the robot's maximum. -/
def setWheelRps (r : Robot α) (left right : α) : Robot α :=
  r.setWheelSpeeds
    (Wheel.speed r.wheelDiameter (Wheel.capRps r.wheelMaxRps left))
    (Wheel.speed r.wheelDiameter (Wheel.capRps r.wheelMaxRps right))

def stopWheels (r : Robot α) : Robot α := r.setWheelSpeeds 0.0 0.0

/-- Veers an eighth of a turn to the right, out of another robot's way. -/
def avertCollision (r : Robot α) : Robot α :=
  r.update fun k => { k with heading := k.heading + Scalar.pi / 4.0 }

end Robot

end RobotScript
