import RobotScript.Robot.Basic

/-!
# The distance sensor

A robot senses what lies in a cone ahead of it: within the sensor's range, and off its heading by
no more than half the sensor's spread.
-/

namespace RobotScript

/-- The distance of a point in the cone of `me`. -/
def Kinematics.inCone? {α : Type} [Scalar α] (me : Kinematics α) (range spread : α)
    (target : Vec α) : Option α :=
  let distance := me.position.distance target
  let ahead := Vec.rotateAbout me.position target (-me.heading) - me.position
  let offAxis := Scalar.degrees (Scalar.abs (Scalar.atan2 ahead.y ahead.x))
  if distance > range then none
  else if offAxis ≤ spread / 2.0 then some distance
  else none

namespace Robot

/-- The nearer of two sightings; of two at one distance, the first. -/
def nearer (a b : Robot Float32 × Float32) : Robot Float32 × Float32 :=
  if Binary.orderKey32 b.2 < Binary.orderKey32 a.2 then b else a

/-- The nearest of `others` in the cone of `me`, with its distance. Robots of the same name are the
robot itself. -/
def nearest? (me : Robot Float32) (s : Settings Float32) (others : List (Robot Float32)) :
    Option (Robot Float32 × Float32) :=
  let sightings := others.filterMap fun other =>
    if other.name == me.name then none
    else (me.motion.inCone? s.sensorRange s.sensorSpread other.motion.position).map (other, ·)
  match sightings with
  | [] => none
  | first :: rest => some (rest.foldl nearer first)

end Robot

end RobotScript
