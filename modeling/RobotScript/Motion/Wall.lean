import RobotScript.Motion.Kinematics
import RobotScript.Motion.Arc

/-!
# Walls

When a robot touches a wall of its arena, and how an arc is thrown back by one.
-/

namespace RobotScript

/-- Whether a robot presses against a wall, and the way it is heading. -/
structure WallBump where
  bump : Bool
  horizontal : Horizontal
  vertical : Vertical

/-- The walls of a rectangle that a point is near to. -/
structure NearWalls where
  west : Bool
  east : Bool
  north : Bool
  south : Bool

variable {α : Type} [Scalar α]

def NearWalls.of (arena : Rect α) (reach : α) (p : Vec α) : NearWalls :=
  { west := p.x ≤ arena.min.x + reach
    east := p.x ≥ arena.max.x - reach
    north := p.y ≤ arena.min.y + reach
    south := p.y ≥ arena.max.y - reach }

/-- An arc after it has been thrown back. The turning sense stays as it was. -/
structure ArcReflection (α : Type) where
  heading : α
  centre : Vec α
  radius : α
  angle : α

namespace Kinematics

/-- Components of a direction below this size run along a wall. -/
def parallelTolerance : α := 1e-4

/-- The walls within `margin` and half the robot's size. -/
def nearWalls (k : Kinematics α) (arena : Rect α) (margin : α) : NearWalls :=
  NearWalls.of arena (margin + k.size / 2.0) k.position

/-- A robot bumps into a near wall that its heading, in whole degrees, does not lead away from. -/
def wallBump (k : Kinematics α) (arena : Rect α) (margin : α) : WallBump :=
  let near := k.nearWalls arena margin
  let horizontal := Heading.horizontal k.heading
  let vertical := Heading.vertical k.heading
  let sideways := near.west && horizontal == .left || near.east && horizontal == .right
  let upright := near.north && vertical == .up || near.south && vertical == .down
  ⟨sideways || upright, horizontal, vertical⟩

/-- Whether the robot bumps into a wall and its heading has a component into a near one. Running
along a wall is a bump without that. -/
def headsIntoWall (k : Kinematics α) (arena : Rect α) (margin : α) : Bool :=
  let near := k.nearWalls arena margin
  let direction := Vec.along k.heading 1.0
  (k.wallBump arena margin).bump &&
    (near.west && direction.x < -parallelTolerance ||
      near.east && direction.x > parallelTolerance ||
      near.north && direction.y < -parallelTolerance ||
      near.south && direction.y > parallelTolerance)

/-- The heading in degrees that a wall sends the robot on, and the robot's place relative to the
new centre of its arc. -/
def bounce? (k : Kinematics α) (arena : Rect α) (margin : α) (offset : Vec α) :
    Option (α × Vec α) :=
  let wall := k.wallBump arena margin
  let near := NearWalls.of arena margin k.position
  let current := Heading.foldedDegrees k.heading
  let sideways : Vec α := ⟨offset.x, -offset.y⟩
  let upright : Vec α := ⟨-offset.x, offset.y⟩
  if !wall.bump then none
  else if near.west && wall.horizontal == .left then some (180.0 - current, sideways)
  else if near.east && wall.horizontal == .right then
    some (if current ≤ 90.0 then 180.0 - current else 540.0 - current, sideways)
  else if near.north && wall.vertical == .up then some (360.0 - current, upright)
  else if near.south && wall.vertical == .down then some (360.0 - current, upright)
  else none

/-- The arc of a robot that has reached a wall, mirrored across the perpendicular of the wall
through the robot. The robot stays where it is and drives on along the mirrored tangent. -/
def reflectArc? (k : Kinematics α) (arena : Rect α) (margin : α) (centre : Vec α) :
    Option (ArcReflection α) :=
  (k.bounce? arena margin (k.position - centre)).map fun (degrees, offset) =>
    let centre := k.position - offset
    { heading := Heading.ofDegrees degrees
      centre := centre
      radius := offset.length
      angle := Scalar.radians (k.position.bearing centre) }

end Kinematics

end RobotScript
