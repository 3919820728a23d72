import Mathlib.Data.List.Forall2
import RobotScript.Proofs.Robot.Margin
import RobotScript.Swarm

/-!
# Reactions to collisions

Robots that have run into another turn one after the other, and each looks around after those before
it have turned. It makes out names and places only, and a turn changes neither, so all of them see
what they would have seen at the start.
-/

namespace RobotScript

theorem Kinematics.hasCollided_congr {α : Type} [Scalar α] {b c : Kinematics α}
    (same : b.position = c.position) (a : Kinematics α) : a.hasCollided b = a.hasCollided c := by
  rw [hasCollided, hasCollided, proximity, proximity, same]

namespace Robot

variable {r : Robot Float32}

/-- The robot an eighth of a turn further to the right, and otherwise as it was. -/
def turned (r : Robot Float32) : Robot Float32 :=
  { r with motion := { r.motion with heading := r.motion.heading + Scalar.pi / 4.0 } }

/-- The place of the robot has been clamped. -/
def Settled (r : Robot Float32) : Prop := ∃ p, r.motion.position = r.clamp p

theorem settled_update (r : Robot Float32) (change : Kinematics Float32 → Kinematics Float32) :
    (r.update change).Settled :=
  ⟨(change r.motion).position, rfl⟩

theorem Settled.clamp_eq (settled : r.Settled) : r.clamp r.motion.position = r.motion.position := by
  obtain ⟨p, clamped⟩ := settled
  rw [clamped]
  exact r.arena.clamp_idem r.wallMargin p

theorem Settled.avertCollision_eq (settled : r.Settled) : r.avertCollision = r.turned := by
  unfold avertCollision update
  simp only [settled.clamp_eq]
  rfl

/-- The turn is the number nearest to a quarter of π. -/
example : (Scalar.pi / 4.0 : Float32).toBits = 0x3f490fdb := by decide

/-! ### What robots make out -/

/-- Others cannot tell the two robots from each other. -/
def Alike (a b : Robot Float32) : Prop := a.name = b.name ∧ a.motion.position = b.motion.position

theorem Alike.refl (r : Robot Float32) : r.Alike r := ⟨rfl, rfl⟩

theorem turned_alike (r : Robot Float32) : r.turned.Alike r := ⟨rfl, rfl⟩

/-- Sightings of robots that are alike, at one distance. -/
def SameSighting (a b : Robot Float32 × Float32) : Prop := a.1.Alike b.1 ∧ a.2 = b.2

theorem nearer_sameSighting {a b c d : Robot Float32 × Float32} (firsts : SameSighting a c)
    (seconds : SameSighting b d) : SameSighting (nearer a b) (nearer c d) := by
  unfold nearer
  rw [firsts.2, seconds.2]
  split
  · exact seconds
  · exact firsts

/-- What `me` makes out of one other robot. -/
def sight? (me : Robot Float32) (s : Settings Float32) (other : Robot Float32) :
    Option (Robot Float32 × Float32) :=
  if other.name == me.name then none
  else (me.motion.inCone? s.sensorRange s.sensorSpread other.motion.position).map (other, ·)

theorem sight?_alike {me : Robot Float32} {s : Settings Float32} {a b : Robot Float32}
    (alike : a.Alike b) : Option.Rel SameSighting (me.sight? s a) (me.sight? s b) := by
  unfold sight?
  rw [alike.1, alike.2]
  split
  · exact .none
  · cases me.motion.inCone? s.sensorRange s.sensorSpread b.motion.position with
    | none => exact .none
    | some distance => exact .some ⟨alike, rfl⟩

/-- The nearest of some sightings. -/
def nearestOf : List (Robot Float32 × Float32) → Option (Robot Float32 × Float32)
  | [] => none
  | first :: rest => some (rest.foldl nearer first)

theorem nearestOf_sameSighting {a b : List (Robot Float32 × Float32)}
    (sightings : List.Forall₂ SameSighting a b) :
    Option.Rel SameSighting (nearestOf a) (nearestOf b) := by
  cases sightings with
  | nil => exact .none
  | cons firsts rests =>
    have step : Relator.LiftFun SameSighting (Relator.LiftFun SameSighting SameSighting)
        nearer nearer :=
      fun _ _ left _ _ right => nearer_sameSighting left right
    exact .some (List.rel_foldl step firsts rests)

theorem nearest?_eq (me : Robot Float32) (s : Settings Float32) (others : List (Robot Float32)) :
    me.nearest? s others = nearestOf (others.filterMap (me.sight? s)) := rfl

theorem nearest?_alike {me : Robot Float32} {s : Settings Float32}
    {others others' : List (Robot Float32)} (alike : List.Forall₂ Alike others others') :
    Option.Rel SameSighting (me.nearest? s others) (me.nearest? s others') := by
  rw [nearest?_eq, nearest?_eq]
  apply nearestOf_sameSighting
  exact List.rel_filterMap (R := Alike) (fun _ _ => sight?_alike) alike

end Robot

namespace Swarm

open Robot (Alike)

variable {settings : Settings Float32} {robots others others' : List (Robot Float32)}

theorem hasRunInto_alike (alike : List.Forall₂ Alike others others') (r : Robot Float32) :
    hasRunInto settings others r = hasRunInto settings others' r := by
  have nearest := r.nearest?_alike (s := settings) alike
  unfold hasRunInto
  generalize r.nearest? settings others = a, r.nearest? settings others' = b at nearest ⊢
  cases nearest with
  | none => rfl
  | some sighting => exact Kinematics.hasCollided_congr sighting.1.2 r.motion

/-- `r` as it is after all have reacted, when `robots` are all of them at the start. -/
def reacted (settings : Settings Float32) (robots : List (Robot Float32)) (r : Robot Float32) :
    Robot Float32 :=
  if hasRunInto settings robots r then r.turned else r

theorem reacted_alike (r : Robot Float32) : (reacted settings robots r).Alike r := by
  unfold reacted
  split
  · exact r.turned_alike
  · exact .refl r

theorem reactFrom_cons {visited : List (Robot Float32)} {r : Robot Float32} (settled : r.Settled) :
    reactFrom settings visited (r :: robots) =
      let all := visited ++ r :: robots
      let rest := reactFrom settings (visited ++ [reacted settings all r]) robots
      (rest.1 + if hasRunInto settings all r then 1 else 0, rest.2) := by
  rw [reactFrom, settled.avertCollision_eq]
  split <;> simp [reacted, *]

theorem reactFrom_eq {before visited : List (Robot Float32)}
    (alike : List.Forall₂ Alike visited before) (settled : ∀ r ∈ robots, r.Settled) :
    reactFrom settings visited robots =
      (robots.countP (hasRunInto settings (before ++ robots)),
        visited ++ robots.map (reacted settings (before ++ robots))) := by
  -- `before` are the robots visited so far, as they were at the start
  induction robots generalizing before visited with
  | nil => simp [reactFrom]
  | cons r robots ih =>
    have ahead : List.Forall₂ Alike (r :: robots) (r :: robots) :=
      List.forall₂_same.2 fun r _ => .refl r
    have sees : hasRunInto settings (visited ++ r :: robots) r =
        hasRunInto settings (before ++ r :: robots) r :=
      hasRunInto_alike (List.rel_append alike ahead) r
    have reacts : reacted settings (visited ++ r :: robots) r =
        reacted settings (before ++ r :: robots) r := by
      rw [reacted, reacted, sees]
    have visit : (reacted settings (before ++ r :: robots) r).Alike r := reacted_alike r
    have rest := ih (List.rel_append alike (.cons visit .nil))
      fun r member => settled r (List.mem_cons_of_mem _ member)
    rw [List.append_assoc, List.singleton_append] at rest
    rw [reactFrom_cons (settled r List.mem_cons_self)]
    simp only [sees, reacts, rest, List.countP_cons, List.map_cons, List.append_assoc,
      List.singleton_append]

/-- The robot nearest to `r` in its cone is there, and `r` has run into it. -/
def Bumps (s : Swarm) (r : Robot Float32) : Prop :=
  ∃ other distance, s.nearest? r = some (other, distance) ∧
    r.motion.hasCollided other.motion = true

theorem hasRunInto_iff {s : Swarm} {r : Robot Float32} :
    hasRunInto s.settings s.active r = true ↔ s.Bumps r := by
  rw [hasRunInto, Option.any_eq_true, Prod.exists]
  rfl

instance (s : Swarm) (r : Robot Float32) : Decidable (s.Bumps r) :=
  decidable_of_iff _ hasRunInto_iff

/-- Robots that turn one after the other end as if all had decided at the start: those that had run
into another then are turned once and counted, and nothing else changes. -/
theorem react_eq_map (s : Swarm) (settled : ∀ r ∈ s.active, r.Settled) :
    s.react = (s.active.countP (s.Bumps ·),
      { s with active := s.active.map fun r => if s.Bumps r then r.turned else r }) := by
  have decided : hasRunInto s.settings s.active = fun r => decide (s.Bumps r) := by
    funext r
    exact Bool.eq_iff_iff.2 (by rw [hasRunInto_iff, decide_eq_true_iff])
  have turns : reacted s.settings s.active = fun r => if s.Bumps r then r.turned else r := by
    funext r
    simp only [reacted, hasRunInto_iff]
  rw [react, reactFrom_eq .nil settled]
  simp only [List.nil_append, decided, turns]

/-- A robot half way down an arena. -/
def halfway (name : String) (color : Color) (x heading : Float32) : Robot Float32 :=
  .new ⟨name, color, ⟨x, 200.0⟩, heading, 15.0⟩ ⟨⟨0.0, 0.0⟩, ⟨400.0, 400.0⟩⟩ .default

def east : Robot Float32 := halfway "East" .red 100.0 0.0

def west : Robot Float32 := halfway "West" .green 120.0 Scalar.pi

def aside : Robot Float32 := halfway "Aside" .blue 200.0 Scalar.pi

/-- Two robots that have met head on, and one that sees them from afar. -/
def headOn : Swarm where
  arena := ⟨⟨0.0, 0.0⟩, ⟨400.0, 400.0⟩⟩
  settings := .default
  active := [east, west, aside]
  retired := []

/-- Both turn, though the second looks around after the first has turned. -/
theorem react_eq_map_headOn :
    (∀ r ∈ headOn.active, r.Settled) ∧ headOn.react.1 = 2 ∧
      headOn.react.2.active = [east.turned, west.turned, aside] := by
  have row : headOn.active = [east, west, aside] := rfl
  have settled : ∀ r ∈ headOn.active, r.Settled := by
    rw [row, List.forall_mem_cons, List.forall_mem_cons, List.forall_mem_singleton]
    exact ⟨Robot.settled_update _ id, Robot.settled_update _ id, Robot.settled_update _ id⟩
  have bumps : headOn.Bumps east ∧ headOn.Bumps west ∧ ¬headOn.Bumps aside := by
    decide +kernel
  refine ⟨settled, ?_⟩
  rw [react_eq_map headOn settled, row]
  simp [bumps]

end Swarm

end RobotScript
