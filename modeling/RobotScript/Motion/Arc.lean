import RobotScript.Motion.Heading

/-!
# Arcs

A robot drives an arc around a centre that lies on the perpendicular to its heading: to the right
for a positive radius, to the left for a negative one.
-/

namespace RobotScript

/-- A heading that is no angle has no perpendicular. -/
inductive HeadingError where
  | undefined
deriving DecidableEq, Repr

def HeadingError.message : HeadingError → String
  | .undefined => "unable to fit heading into the 0-360 degree range, got NaN"

/-- The circle a robot is driving around. The sign of the radius is the turning sense, and `angle`
is the direction in which the robot lies as seen from the centre. -/
structure Arc (α : Type) where
  centre : Vec α
  radius : α
  angle : α

namespace Arc

variable {α : Type} [Scalar α]

/-- Centre of the arc that starts at `position`. Each quadrant of the heading measures the
perpendicular against another axis. -/
def centreOf (position : Vec α) (radius heading : α) : Except HeadingError (Vec α) :=
  let degrees := Heading.foldedDegrees heading
  let r := Scalar.abs radius
  let right : Bool := radius > 0.0
  let between (lo hi : α) : Bool := lo ≤ degrees && degrees ≤ hi
  -- the legs of the triangle between the robot and the centre
  let east (angle : α) := r * Scalar.cos (Scalar.radians angle)
  let south (angle : α) := r * Scalar.sin (Scalar.radians angle)
  if between 180.0 270.0 then
    let angle := 360.0 - (degrees + 90.0)
    .ok (if right then ⟨position.x + east angle, position.y - south angle⟩
      else ⟨position.x - east angle, position.y + south angle⟩)
  else if between 270.0 360.0 then
    let angle := degrees + 90.0 - 360.0
    .ok (if right then ⟨position.x + east angle, position.y + south angle⟩
      else ⟨position.x - east angle, position.y - south angle⟩)
  else if between 0.0 90.0 then
    let angle := 180.0 - (degrees + 90.0)
    .ok (if right then ⟨position.x - east angle, position.y + south angle⟩
      else ⟨position.x + east angle, position.y - south angle⟩)
  else if between 90.0 180.0 then
    let angle := degrees - 90.0
    .ok (if right then ⟨position.x - east angle, position.y - south angle⟩
      else ⟨position.x + east angle, position.y + south angle⟩)
  else .error .undefined

def start (position : Vec α) (heading radius : α) : Except HeadingError (Arc α) :=
  (centreOf position radius heading).map fun centre =>
    ⟨centre, radius, Scalar.radians (position.bearing centre)⟩

/-- One for a turn to the right, minus one for a turn to the left. -/
def sense (arc : Arc α) : α := if arc.radius < 0.0 then -1.0 else 1.0

/-- Where the robot is. -/
def position (arc : Arc α) : Vec α :=
  arc.centre + (Vec.ofAngle arc.angle).scale (Scalar.abs arc.radius)

/-- The arc `delta` radians further on. -/
def advance (arc : Arc α) (delta : α) : Arc α := { arc with angle := arc.angle + delta }

end Arc

end RobotScript
