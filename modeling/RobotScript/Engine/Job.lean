import RobotScript.Motion.Wall
import RobotScript.Robot.Basic

/-!
# Timed jobs

A motion that takes time is cut into equal parts, one to a tick.
-/

namespace RobotScript

/-- What a job does in one tick. -/
inductive Manoeuvre (α : Type) where
  | straight (perTick : α)
  | spin (perTick : α)
  | sweep (perTick : α) (arc : Arc α)
  | pause

/-- A manoeuvre and the ticks it has left. -/
structure Job (α : Type) where
  label : String
  ticks : Nat
  manoeuvre : Manoeuvre α

variable {α : Type} [Scalar α]

namespace Kinematics

/-- One tick straight on. A robot about to drive into a wall turns round first; in reverse gear the
wall behind it counts. -/
def driveStraight (k : Kinematics α) (arena : Rect α) (margin perTick : α) : Kinematics α :=
  let travel := if perTick < 0.0 then k.heading + Scalar.pi else k.heading
  let blocked := { k with heading := travel }.headsIntoWall arena margin
  let heading := if blocked then Heading.turn k.heading Scalar.pi else k.heading
  { k with heading := heading, position := k.position + Vec.along heading perTick }

def spin (k : Kinematics α) (angle : α) : Kinematics α :=
  { k with heading := Heading.turn k.heading angle }

/-- One tick along an arc, which a wall may throw back. -/
def driveArc (k : Kinematics α) (arena : Rect α) (margin perTick : α) (arc : Arc α) :
    Arc α × Kinematics α :=
  let arc := arc.advance perTick
  let k := { k with position := arc.position, heading := Heading.turn k.heading perTick }
  match k.reflectArc? arena margin arc.centre with
  | some r => (⟨r.centre, r.radius * arc.sense, r.angle⟩, { k with heading := r.heading })
  | none => (arc, k)

end Kinematics

namespace Manoeuvre

def tick (m : Manoeuvre α) (r : Robot α) : Manoeuvre α × Robot α :=
  match m with
  | .straight perTick => (m, r.update fun k => k.driveStraight r.arena r.wallMargin perTick)
  | .spin perTick => (m, r.update fun k => k.spin perTick)
  | .sweep perTick arc =>
    let (arc, k) := r.motion.driveArc r.arena r.wallMargin perTick arc
    (.sweep perTick arc, r.update fun _ => k)
  | .pause => (m, r)

/-- Motions end with the wheels at rest, completed or not. -/
def finish (m : Manoeuvre α) (r : Robot α) : Robot α :=
  match m with
  | .pause => r
  | _ => r.stopWheels

end Manoeuvre

namespace Job

/-- One step of a job in the background: a tick, or its end if it is done or has been stopped. -/
def step (running : Bool) (t : Job α) (r : Robot α) : Option (Job α) × Robot α :=
  if running && 0 < t.ticks then
    let (m, r) := t.manoeuvre.tick r
    (some { t with ticks := t.ticks - 1, manoeuvre := m }, r)
  else (none, t.manoeuvre.finish r)

/-- One step of every job, in order. -/
def round (running : Bool) : List (Job α) → Robot α → List (Job α) × Robot α
  | [], r => ([], r)
  | t :: ts, r =>
    let (t?, r) := t.step running r
    let (ts, r) := round running ts r
    (t?.toList ++ ts, r)

end Job

end RobotScript
