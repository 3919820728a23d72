import RobotScript.Motion.Kinematics
import RobotScript.Motion.StraightPath

/-!
# Encounters of two robots

How close two robots are, and whether their straight paths lead them to one point at one time. All
robots are taken to have the size of the first.
-/

namespace RobotScript

inductive Proximity where
  | collided | closeCall | clear
deriving DecidableEq, Repr

/-- What becomes of two robots that keep their headings and speeds. -/
inductive Forecast (α : Type) where
  | collision (place : Vec α) (eta : α)
  | closeCall
  | clear

namespace Kinematics

variable {α : Type} [Scalar α]

/-- Up to this multiple of the combined radius a miss counts as close. -/
def closeCallFactor : α := 1.2

/-- Up to this share of the arrival time a predicted miss counts as close. -/
def closeCallTimeRatio : α := 0.1

/-- Arrivals closer than this, in seconds, are simultaneous. -/
def arrivalTolerance : α := 1e-3

/-- The speed that a robot at rest is given. -/
def crawlSpeed : α := 0.001

def proximity (a b : Kinematics α) : Proximity :=
  let separation := a.position.distance b.position
  let combined := 2.0 * a.size
  if separation < combined then .collided
  else if separation < closeCallFactor * combined then .closeCall
  else .clear

def hasCollided (a b : Kinematics α) : Bool := a.proximity b == .collided

def timeToReach (k : Kinematics α) (target : Vec α) : α :=
  let speed := k.speed
  k.position.distance target / (if speed > 0.0 then speed else crawlSpeed)

def forecast (a b : Kinematics α) : Forecast α :=
  let pathA := StraightPath.through a.heading a.position
  let pathB := StraightPath.through b.heading b.position
  match pathA.crossing? pathB with
  | none => .clear
  | some crossing =>
    let t := a.timeToReach crossing
    let gap := Scalar.abs (t - b.timeToReach crossing)
    if gap ≤ arrivalTolerance then .collision crossing t
    else if t > 0.0 && gap / t < closeCallTimeRatio then .closeCall
    else .clear

end Kinematics

end RobotScript
