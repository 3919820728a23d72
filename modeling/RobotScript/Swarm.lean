import RobotScript.Motion.Encounter
import RobotScript.Number.Decimal
import RobotScript.Robot.Cone

/-!
# Swarms

The robots that share an arena. Their names differ in more than case, and so do their colors when
they join. A robot that has been taken out is no longer seen, but can still be acted on.
-/

namespace RobotScript

/-- Why an arena or a robot was turned down. -/
inductive SwarmError where
  | arenaTooSmall (width height min : Float32)
  | duplicateName (existing : String)
  | duplicateColor (existing : String) (color : Color)
  | outsideArena (name : String) (x y : Float32)

def SwarmError.message : SwarmError → String
  | .arenaTooSmall width height min =>
    "the arena " ++ Decimal.text32 width ++ "x" ++ Decimal.text32 height ++
      " is too small, it must be at least " ++ Decimal.text32 min ++ "x" ++ Decimal.text32 min
  | .duplicateName existing => "a robot called `" ++ existing ++ "` already exists"
  | .duplicateColor existing color =>
    "`" ++ existing ++ "` is already " ++ color.name ++ ", robots must all be different colors"
  | .outsideArena name x y =>
    "`" ++ name ++ "` would start outside the arena at (" ++ Decimal.text32 x ++ ", " ++
      Decimal.text32 y ++ ")"

structure Swarm where
  arena : Rect Float32
  settings : Settings Float32
  /-- The robots in the arena, in the order they joined. -/
  active : List (Robot Float32)
  /-- The robots taken out, latest first. -/
  retired : List (Robot Float32)

namespace Swarm

open Text (sameWord)

def new (width height : Float32) (settings : Settings Float32) : Except SwarmError Swarm :=
  let min := settings.minArenaSize
  if width < min || height < min then .error (.arenaTooSmall width height min)
  else
    .ok { arena := .ofCorners ⟨0.0, 0.0⟩ ⟨width, height⟩, settings, active := [], retired := [] }

/-! ### The registry -/

/-- The robot in the arena called `name`, in either case. -/
def find? (s : Swarm) (name : String) : Option (Robot Float32) :=
  List.find? (fun r => sameWord r.name name) s.active

/-- Lets a robot join, and gives it back. A place outside the arena is found out first, then a name
in use, then a color in use. -/
def add (s : Swarm) (spec : Robot.Spec Float32) : Except SwarmError (Robot Float32) × Swarm :=
  if !s.arena.contains spec.position then
    (.error (.outsideArena spec.name spec.position.x spec.position.y), s)
  else
    match s.find? spec.name with
    | some existing => (.error (.duplicateName existing.name), s)
    | none =>
      match List.find? (fun r => r.color == spec.color) s.active with
      | some existing => (.error (.duplicateColor existing.name spec.color), s)
      | none =>
        let r := Robot.new spec s.arena s.settings
        (.ok r, { s with active := s.active ++ [r] })

/-- Takes the robot called `name` out, in either case. -/
def remove (s : Swarm) (name : String) : Option (Robot Float32) × Swarm :=
  match s.find? name with
  | some r =>
    (some r, { s with
      active := s.active.eraseP fun r => sameWord r.name name
      retired := r :: s.retired })
  | none => (none, s)

/-! ### Single robots, in the arena or not -/

/-- The robot of exactly this name: the one in the arena, or else the one taken out last. -/
def handle? (s : Swarm) (name : String) : Option (Robot Float32) :=
  List.find? (fun r => r.name == name) (s.active ++ s.retired)

/-- Changes the first of `robots` that is called `name`. -/
def changeFirst (name : String) (change : Robot Float32 → Robot Float32) :
    List (Robot Float32) → List (Robot Float32)
  | [] => []
  | r :: rest => if r.name == name then change r :: rest else r :: changeFirst name change rest

def modify (s : Swarm) (name : String) (change : Robot Float32 → Robot Float32) : Swarm :=
  if s.active.any (·.name == name) then { s with active := changeFirst name change s.active }
  else { s with retired := changeFirst name change s.retired }

/-- The robot nearest to `me` in its sensor cone, with its distance. -/
def nearest? (s : Swarm) (me : Robot Float32) : Option (Robot Float32 × Float32) :=
  me.nearest? s.settings s.active

/-! ### Collisions -/

/-- Whether `r` has run into the nearest robot in its cone. -/
def hasRunInto (settings : Settings Float32) (robots : List (Robot Float32)) (r : Robot Float32) :
    Bool :=
  (r.nearest? settings robots).any fun (other, _) => r.motion.hasCollided other.motion

/-- Visits `robots` one by one; those before them have been visited. -/
def reactFrom (settings : Settings Float32) (visited : List (Robot Float32)) :
    List (Robot Float32) → Nat × List (Robot Float32)
  | [] => (0, visited)
  | r :: robots =>
    if hasRunInto settings (visited ++ r :: robots) r then
      let (n, all) := reactFrom settings (visited ++ [r.avertCollision]) robots
      (n + 1, all)
    else reactFrom settings (visited ++ [r]) robots

/-- Turns every robot that has run into another, one after the other, and counts them. -/
def react (s : Swarm) : Nat × Swarm :=
  let (n, active) := reactFrom s.settings [] s.active
  (n, { s with active })

end Swarm

end RobotScript
