import Mathlib.Logic.Relation
import RobotScript.Proofs.Engine.Effects
import RobotScript.Proofs.Number.Values

/-!
# The wall margin

Whatever moves a robot, its place is clamped to the margin of its arena. The clamp selects by
comparisons alone, so it brings in infinite and undefined places too, and a place it has brought in
it leaves as it is.
-/

namespace RobotScript

/-! ### The clamp -/

namespace Scalar

open Binary (le_of_lt le_self_of_le)

instance : Std.Irrefl (fun a b : Float32 => a < b) := ⟨Binary.not_lt_self⟩

variable {α : Type} [Scalar α] (p low high : α)

theorem lower_upper_cases :
    low < p ∧ p < high ∧ lower (upper p low) high = p ∨
      low < high ∧ lower (upper p low) high = low ∨ lower (upper p low) high = high := by
  unfold lower upper
  by_cases above : low < p
  · rw [if_pos above]
    by_cases below : p < high
    · exact .inl ⟨above, below, if_pos below⟩
    · exact .inr (.inr (if_neg below))
  · rw [if_neg above]
    by_cases below : low < high
    · exact .inr (.inl ⟨below, if_pos below⟩)
    · exact .inr (.inr (if_neg below))

theorem lower_upper_idem [Std.Irrefl fun a b : α => a < b] :
    lower (upper (lower (upper p low) high) low) high = lower (upper p low) high := by
  have irrefl (a : α) : ¬a < a := Std.Irrefl.irrefl a
  obtain ⟨above, below, same⟩ | ⟨below, same⟩ | same := lower_upper_cases p low high
  · rw [same, same]
  · rw [same]
    unfold lower upper
    rw [if_neg (irrefl low), if_pos below]
  · rw [same]
    unfold lower upper
    -- `high` goes through, or `low` does and is not below it
    by_cases between : low < high
    · rw [if_pos between, if_neg (irrefl high)]
    · rw [if_neg between, if_neg between]

theorem lower_upper_between {low high : Float32} (ordered : low ≤ high) (p : Float32) :
    low ≤ lower (upper p low) high ∧ lower (upper p low) high ≤ high := by
  obtain ⟨lowSelf, highSelf⟩ := le_self_of_le ordered
  obtain ⟨above, below, same⟩ | ⟨below, same⟩ | same := lower_upper_cases p low high
  · rw [same]
    exact ⟨le_of_lt above, le_of_lt below⟩
  · rw [same]
    exact ⟨lowSelf, ordered⟩
  · rw [same]
    exact ⟨ordered, highSelf⟩

end Scalar

theorem Vec.lower_upper_idem {α : Type} [Scalar α] [Std.Irrefl fun a b : α => a < b]
    (p low high : Vec α) :
    (((p.upper low).lower high).upper low).lower high = (p.upper low).lower high :=
  Vec.ext (Scalar.lower_upper_idem _ _ _) (Scalar.lower_upper_idem _ _ _)

namespace Rect

/-- The part of a rectangle that keeps `margin` to every side. -/
def inset (r : Rect Float32) (margin : Float32) : Rect Float32 :=
  ⟨r.min + ⟨margin, margin⟩, r.max - ⟨margin, margin⟩⟩

theorem clamp_idem {α : Type} [Scalar α] [Std.Irrefl fun a b : α => a < b] (r : Rect α)
    (margin : α) (p : Vec α) : r.clamp margin (r.clamp margin p) = r.clamp margin p :=
  Vec.lower_upper_idem _ _ _

theorem inset_contains_clamp {r : Rect Float32} {margin : Float32}
    (wide : (r.inset margin).min.x ≤ (r.inset margin).max.x)
    (tall : (r.inset margin).min.y ≤ (r.inset margin).max.y) (p : Vec Float32) :
    (r.inset margin).contains (r.clamp margin p) = true := by
  obtain ⟨west, east⟩ := Scalar.lower_upper_between wide p.x
  obtain ⟨north, south⟩ := Scalar.lower_upper_between tall p.y
  unfold contains
  simp only [Bool.and_eq_true, decide_eq_true_eq]
  exact ⟨⟨⟨west, east⟩, north⟩, south⟩

end Rect

/-! ### Robots -/

namespace Robot

/-- What can happen to a robot: an update of its motion, which may be any (its place, its heading
and its wheels are set so, and so it veers off), a change of its looks, a command, carried out or
not, and a tick or the end of a job. -/
inductive Step : Robot Float32 → Robot Float32 → Prop
  | update {r} (change : Kinematics Float32 → Kinematics Float32) : Step r (r.update change)
  | look {r} (color : Color) (mood : Mood) (status : Status) :
    Step r { r with color := color, mood := mood, status := status }
  | command {e e' : Engine Float32} {command answer}
    (performed : e.perform command = (answer, e')) : Step e.robot e'.robot
  | tick {r} (m : Manoeuvre Float32) : Step r (m.tick r).2
  | finish {r} (m : Manoeuvre Float32) : Step r (m.finish r)

/-- The robot has the walls of `r` and keeps its place or is clamped to them. -/
def Heeds (r r' : Robot Float32) : Prop :=
  r'.arena = r.arena ∧ r'.wallMargin = r.wallMargin ∧
    (r'.motion.position = r.motion.position ∨ ∃ p, r'.motion.position = r.clamp p)

theorem heeds_update (r : Robot Float32) (change : Kinematics Float32 → Kinematics Float32) :
    r.Heeds (r.update change) :=
  ⟨rfl, rfl, .inr ⟨_, rfl⟩⟩

theorem heeds_setWheelSpeeds (r : Robot Float32) (left right : Float32) :
    r.Heeds (r.setWheelSpeeds left right) :=
  r.heeds_update fun k => { k with leftSpeed := left, rightSpeed := right }

theorem Coasts.heeds {r r' : Robot Float32} (coasts : r.Coasts r') : r.Heeds r' := by
  cases coasts with
  | rest | look => exact ⟨rfl, rfl, .inl rfl⟩
  | move => exact r.heeds_update _

theorem heeds_of_affects {r r' : Robot Float32} {errand : Errand Float32}
    (affects : Engine.Affects r errand r') : r.Heeds r' := by
  cases affects with
  | coast _ coasts => exact coasts.heeds
  | start => exact r.heeds_setWheelSpeeds _ _

theorem heeds_finish (m : Manoeuvre Float32) (r : Robot Float32) : r.Heeds (m.finish r) := by
  cases m with
  | straight | spin | sweep => exact r.heeds_setWheelSpeeds 0.0 0.0
  | pause => exact Coasts.rest.heeds

theorem Step.heeds {r r' : Robot Float32} (step : r.Step r') : r.Heeds r' := by
  cases step with
  | update change => exact r.heeds_update change
  | look color mood status => exact (Coasts.look color mood status).heeds
  | command performed =>
    obtain ⟨errand, -, affects⟩ | ⟨-, -, -, -, -, -, rfl, -⟩ := Engine.perform_cases performed
    · exact heeds_of_affects affects
    · exact Coasts.rest.heeds
  | tick m => exact (m.tick_coasts r).heeds
  | finish m => exact heeds_finish m r

theorem clamped_of_reaches {spec : Spec Float32} {arena : Rect Float32} {s : Settings Float32}
    {r : Robot Float32} (reaches : Relation.ReflTransGen Step (new spec arena s) r) :
    r.arena = arena ∧ r.wallMargin = s.wallMargin ∧
      ∃ p, r.motion.position = arena.clamp s.wallMargin p := by
  induction reaches with
  | refl => exact ⟨rfl, rfl, spec.position, rfl⟩
  | tail _ step ih =>
    obtain ⟨sameArena, sameMargin, moved⟩ := step.heeds
    obtain ⟨here, margin, p, clamped⟩ := ih
    refine ⟨sameArena.trans here, sameMargin.trans margin, ?_⟩
    obtain same | ⟨q, same⟩ := moved
    · exact ⟨p, same.trans clamped⟩
    · exact ⟨q, by rw [same, clamp, here, margin]⟩

/-- A robot keeps the margin of its arena, if there is room for that, whatever happens to it. An
update that does not touch its place leaves it where it is, room or not: what has been clamped is
not moved by the same clamp. -/
theorem keeps_margin (spec : Spec Float32) (arena : Rect Float32) (s : Settings Float32)
    (r : Robot Float32) (reaches : Relation.ReflTransGen Step (new spec arena s) r) :
    ((arena.inset s.wallMargin).min.x ≤ (arena.inset s.wallMargin).max.x →
      (arena.inset s.wallMargin).min.y ≤ (arena.inset s.wallMargin).max.y →
      (arena.inset s.wallMargin).contains r.motion.position = true) ∧
    (∀ change : Kinematics Float32 → Kinematics Float32,
      (change r.motion).position = r.motion.position →
      (r.update change).motion.position = r.motion.position) ∧
    ∀ low high p : Vec Float32,
      (((p.upper low).lower high).upper low).lower high = (p.upper low).lower high := by
  obtain ⟨here, margin, p, clamped⟩ := clamped_of_reaches reaches
  refine ⟨?_, ?_, fun low high p => p.lower_upper_idem low high⟩
  · intro wide tall
    rw [clamped]
    exact Rect.inset_contains_clamp wide tall p
  · intro change untouched
    show r.clamp (change r.motion).position = _
    rw [untouched, clamp, here, margin, clamped]
    exact arena.clamp_idem s.wallMargin p

/-- A robot that has been set to nowhere. -/
def lost : Robot Float32 :=
  (new ⟨"Rover", .red, ⟨50.0, 50.0⟩, 0.0, 15.0⟩ ⟨⟨0.0, 0.0⟩, ⟨400.0, 400.0⟩⟩ .default).setPosition
    ⟨0.0 / 0.0, 0.0 / 0.0⟩

/-- It is in the low corner, and there it stays when it veers off. -/
theorem keeps_margin_lost :
    (Rect.inset ⟨⟨0.0, 0.0⟩, ⟨400.0, 400.0⟩⟩ 10.0).contains lost.avertCollision.motion.position =
        true ∧
      lost.avertCollision.motion.position = ⟨10.0, 10.0⟩ := by
  have set : (new _ _ _).Step lost := .update fun k => { k with position := ⟨0.0 / 0.0, 0.0 / 0.0⟩ }
  have veered : lost.Step lost.avertCollision :=
    .update fun k => { k with heading := k.heading + Scalar.pi / 4.0 }
  have reaches : Relation.ReflTransGen Step _ lost.avertCollision := .tail (.single set) veered
  exact ⟨(keeps_margin _ _ _ _ reaches).1 (by decide) (by decide), rfl⟩

end Robot

end RobotScript
