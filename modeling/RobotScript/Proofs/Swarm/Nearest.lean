import Mathlib.Data.List.Induction
import RobotScript.Proofs.Swarm.Reaction

/-!
# The nearest robot in a cone

The sensor of a robot finds the nearest of the others in its cone, and of several at one distance the
one that joined first. What else there is to tell the others apart does not matter to it, and neither
do robots that it does not find: they can join and leave without a change to its answer.
-/

namespace RobotScript

open Binary (orderKey32)

namespace Robot

/-- `o` is another robot, in the cone of `me` and at distance `d`. -/
def Sees (me : Robot Float32) (s : Settings Float32) (o : Robot Float32) (d : Float32) : Prop :=
  o.name ≠ me.name ∧
    me.motion.inCone? s.sensorRange s.sensorSpread o.motion.position = some d

/-- Of the robots that `me` sees, none is nearer than the one at place `i`, and those before it are
farther. -/
structure Nearest (me : Robot Float32) (s : Settings Float32) (others : List (Robot Float32))
    (i : Nat) (o : Robot Float32) (d : Float32) : Prop where
  place : others[i]? = some o
  seen : me.Sees s o d
  least : ∀ o' ∈ others, ∀ d', me.Sees s o' d' → orderKey32 d ≤ orderKey32 d'
  first : ∀ j < i, ∀ o' d', others[j]? = some o' → me.Sees s o' d' → orderKey32 d < orderKey32 d'

section Nearest

variable {me o o' r : Robot Float32} {s : Settings Float32} {others others' : List (Robot Float32)}
  {d d' : Float32} {i i' k : Nat}

/-! ### Single robots -/

theorem sight?_eq_some_iff : me.sight? s r = some (o, d) ↔ r = o ∧ me.Sees s o d := by
  unfold sight? Sees
  by_cases same : r.name = me.name
  · simp only [same, beq_self_eq_true, if_true, reduceCtorEq, false_iff]
    rintro ⟨rfl, differs, -⟩
    exact differs same
  · simp only [beq_iff_eq, if_neg same, Option.map_eq_some_iff, Prod.mk.injEq]
    constructor
    · rintro ⟨d, inside, rfl, rfl⟩
      exact ⟨rfl, same, inside⟩
    · rintro ⟨rfl, -, inside⟩
      exact ⟨d, inside, rfl, rfl⟩

theorem sight?_eq_none_iff : me.sight? s r = none ↔ ∀ d, ¬me.Sees s r d := by
  rw [Option.eq_none_iff_forall_ne_some]
  constructor
  · intro unseen d sees
    exact unseen (r, d) (sight?_eq_some_iff.2 ⟨rfl, sees⟩)
  · rintro unseen ⟨o, d⟩ found
    obtain ⟨rfl, sees⟩ := sight?_eq_some_iff.1 found
    exact unseen d sees

theorem Sees.alike (sees : me.Sees s o d) (alike : o.Alike o') : me.Sees s o' d := by
  unfold Sees at sees ⊢
  rwa [← alike.1, ← alike.2]

/-! ### One more robot -/

theorem nearestOf_concat (sightings : List (Robot Float32 × Float32))
    (last : Robot Float32 × Float32) :
    nearestOf (sightings ++ [last]) = some ((nearestOf sightings).elim last (nearer · last)) := by
  cases sightings with
  | nil => rfl
  | cons first rest => simp [nearestOf]

theorem nearest?_concat (me : Robot Float32) (s : Settings Float32)
    (others : List (Robot Float32)) (r : Robot Float32) :
    me.nearest? s (others ++ [r]) =
      match me.sight? s r with
      | none => me.nearest? s others
      | some last => some ((me.nearest? s others).elim last (nearer · last)) := by
  rw [nearest?_eq, nearest?_eq, List.filterMap_append]
  cases sighted : me.sight? s r with
  | none => simp [sighted]
  | some last => simp [sighted, nearestOf_concat]

theorem Nearest.concat (near : me.Nearest s others i o d)
    (farther : ∀ d', me.Sees s r d' → orderKey32 d ≤ orderKey32 d') :
    me.Nearest s (others ++ [r]) i o d := by
  have inside : i < others.length := (List.getElem?_eq_some_iff.1 near.place).1
  refine ⟨?_, near.seen, ?_, ?_⟩
  · rw [List.getElem?_append_left inside]
    exact near.place
  · intro o' member d' sees
    rcases List.mem_append.1 member with old | new
    · exact near.least o' old d' sees
    · rw [List.mem_singleton.1 new] at sees
      exact farther d' sees
  · intro j before o' d' place sees
    rw [List.getElem?_append_left (Nat.lt_trans before inside)] at place
    exact near.first j before o' d' place sees

theorem nearest_last (sees : me.Sees s r d)
    (nearer : ∀ o' ∈ others, ∀ d', me.Sees s o' d' → orderKey32 d < orderKey32 d') :
    me.Nearest s (others ++ [r]) others.length r d := by
  refine ⟨by simp, sees, ?_, ?_⟩
  · intro o' member d' sees'
    rcases List.mem_append.1 member with old | new
    · exact Int.le_of_lt (nearer o' old d' sees')
    · rw [List.mem_singleton.1 new] at sees'
      obtain rfl : d = d' := Option.some.inj (sees.2.symm.trans sees'.2)
      exact Int.le_refl _
  · intro j before o' d' place sees'
    rw [List.getElem?_append_left before] at place
    exact nearer o' (List.mem_of_getElem? place) d' sees'

/-! ### The answer of the sensor -/

theorem nearest?_eq_none_iff :
    me.nearest? s others = none ↔ ∀ o ∈ others, ∀ d, ¬me.Sees s o d := by
  have empty : ∀ sightings, nearestOf sightings = none ↔ sightings = [] := by
    intro sightings
    cases sightings <;> simp [nearestOf]
  rw [nearest?_eq, empty, List.filterMap_eq_nil_iff]
  simp only [sight?_eq_none_iff]

theorem nearest_of_nearest? (found : me.nearest? s others = some (o, d)) :
    ∃ i, me.Nearest s others i o d := by
  -- robots join one by one, and the latest is taken only if it is nearer
  induction others using List.reverseRecOn generalizing o d with
  | nil => cases found
  | append_singleton others r ih =>
    rw [nearest?_concat] at found
    cases sighted : me.sight? s r with
    | none =>
      have unseen := sight?_eq_none_iff.1 sighted
      rw [sighted] at found
      obtain ⟨i, near⟩ := ih found
      exact ⟨i, near.concat fun d' sees => absurd sees (unseen d')⟩
    | some last =>
      obtain ⟨r', d₁⟩ := last
      obtain ⟨rfl, sees⟩ := sight?_eq_some_iff.1 sighted
      have only : ∀ d', me.Sees s r d' → d' = d₁ := fun d' sees' =>
        Option.some.inj (sees'.2.symm.trans sees.2)
      rw [sighted] at found
      cases before : me.nearest? s others with
      | none =>
        rw [before] at found
        cases found
        have alone := nearest?_eq_none_iff.1 before
        exact ⟨_, nearest_last sees fun o' member d' sees' => absurd sees' (alone o' member d')⟩
      | some best =>
        obtain ⟨o₀, d₀⟩ := best
        obtain ⟨i, near⟩ := ih before
        rw [before] at found
        simp only [Option.elim_some, nearer] at found
        by_cases closer : orderKey32 d₁ < orderKey32 d₀
        · rw [if_pos closer] at found
          cases found
          refine ⟨_, nearest_last sees ?_⟩
          intro o' member d' sees'
          exact Int.lt_of_lt_of_le closer (near.least o' member d' sees')
        · rw [if_neg closer] at found
          cases found
          refine ⟨i, near.concat ?_⟩
          intro d' sees'
          rw [only d' sees']
          exact Int.not_lt.1 closer

theorem Nearest.unique (near : me.Nearest s others i o d) (near' : me.Nearest s others i' o' d') :
    o = o' ∧ d = d' := by
  have member := List.mem_of_getElem? near.place
  have member' := List.mem_of_getElem? near'.place
  have same : i = i' := by
    rcases Nat.lt_trichotomy i i' with early | same | late
    · have farther := near'.first i early o d near.place near.seen
      have least := near.least o' member' d' near'.seen
      omega
    · exact same
    · have farther := near.first i' late o' d' near'.place near'.seen
      have least := near'.least o member d near.seen
      omega
  subst same
  obtain rfl : o = o' := Option.some.inj (near.place.symm.trans near'.place)
  exact ⟨rfl, Option.some.inj (near.seen.2.symm.trans near'.seen.2)⟩

theorem nearest?_eq_some_iff :
    me.nearest? s others = some (o, d) ↔ ∃ i, me.Nearest s others i o d := by
  refine ⟨nearest_of_nearest?, ?_⟩
  rintro ⟨i, near⟩
  cases found : me.nearest? s others with
  | none =>
    have unseen := nearest?_eq_none_iff.1 found o (List.mem_of_getElem? near.place)
    exact absurd near.seen (unseen d)
  | some best =>
    obtain ⟨j, near'⟩ := nearest_of_nearest? found
    obtain ⟨rfl, rfl⟩ := near.unique near'
    rfl

/-! ### Robots that do not matter -/

theorem Alike.symm (alike : o.Alike o') : o'.Alike o := ⟨alike.1.symm, alike.2.symm⟩

theorem forall₂_alike_symm (alike : List.Forall₂ Alike others others') :
    List.Forall₂ Alike others' others :=
  List.Forall₂.flip (alike.imp fun _ _ => Alike.symm)

theorem exists_alike (alike : List.Forall₂ Alike others others') (place : others[i]? = some o) :
    ∃ o', others'[i]? = some o' ∧ o.Alike o' := by
  induction alike generalizing i with
  | nil => cases place
  | @cons a b as bs first _ ih =>
    cases i with
    | zero =>
      cases place
      exact ⟨b, rfl, first⟩
    | succ i => exact ih place

theorem Nearest.alike (near : me.Nearest s others i o d) (alike : List.Forall₂ Alike others others') :
    ∃ o', me.Nearest s others' i o' d := by
  have back := forall₂_alike_symm alike
  obtain ⟨o', place, same⟩ := exists_alike alike near.place
  refine ⟨o', place, near.seen.alike same, ?_, ?_⟩
  · intro r member d' sees
    obtain ⟨j, place⟩ := List.getElem?_of_mem member
    obtain ⟨r', place', same'⟩ := exists_alike back place
    exact near.least r' (List.mem_of_getElem? place') d' (sees.alike same')
  · intro j before r d' place sees
    obtain ⟨r', place', same'⟩ := exists_alike back place
    exact near.first j before r' d' place' (sees.alike same')

theorem nearest_alike_iff (alike : List.Forall₂ Alike others others') :
    (∃ o, me.Nearest s others i o d) ↔ ∃ o, me.Nearest s others' i o d := by
  constructor
  · rintro ⟨o, near⟩
    exact near.alike alike
  · rintro ⟨o, near⟩
    exact near.alike (forall₂_alike_symm alike)

theorem nearest?_append (r : Robot Float32)
    (idle : (∀ d, ¬me.Sees s r d) ∨
      ∃ o d d', me.nearest? s others = some (o, d) ∧ me.Sees s r d' ∧
        orderKey32 d ≤ orderKey32 d') :
    me.nearest? s (others ++ [r]) = me.nearest? s others := by
  rw [nearest?_concat]
  rcases idle with unseen | ⟨o, d, d', found, sees, farther⟩
  · rw [sight?_eq_none_iff.2 unseen]
  · rw [sight?_eq_some_iff.2 ⟨rfl, sees⟩, found]
    simp [nearer, Int.not_lt.2 farther]

theorem Nearest.eraseIdx (near : me.Nearest s others i o d) (other : i ≠ k) :
    ∃ i', me.Nearest s (others.eraseIdx k) i' o d := by
  have least : ∀ o' ∈ others.eraseIdx k, ∀ d', me.Sees s o' d' → orderKey32 d ≤ orderKey32 d' :=
    fun o' member => near.least o' (List.mem_of_mem_eraseIdx member)
  rcases Nat.lt_or_gt_of_ne other with below | above
  · refine ⟨i, ?_, near.seen, least, ?_⟩
    · rw [List.getElem?_eraseIdx, if_pos below]
      exact near.place
    · intro j before o' d' place
      rw [List.getElem?_eraseIdx, if_pos (Nat.lt_trans before below)] at place
      exact near.first j before o' d' place
  · -- the robots behind the one that leaves move up by a place
    obtain ⟨i, rfl⟩ : ∃ i', i = i' + 1 := ⟨i - 1, by omega⟩
    refine ⟨i, ?_, near.seen, least, ?_⟩
    · rw [List.getElem?_eraseIdx, if_neg (by omega)]
      exact near.place
    · intro j before o' d' place
      rw [List.getElem?_eraseIdx] at place
      split at place
      · exact near.first j (by omega) o' d' place
      · exact near.first (j + 1) (by omega) o' d' place

theorem nearest?_eraseIdx (k : Nat) (other : ∀ i o d, me.Nearest s others i o d → i ≠ k) :
    me.nearest? s (others.eraseIdx k) = me.nearest? s others := by
  cases found : me.nearest? s others with
  | none =>
    rw [nearest?_eq_none_iff] at found ⊢
    exact fun o member => found o (List.mem_of_mem_eraseIdx member)
  | some best =>
    obtain ⟨i, near⟩ := nearest_of_nearest? found
    exact nearest?_eq_some_iff.2 (near.eraseIdx (other i _ _ near))

end Nearest

end Robot

namespace Swarm

open Robot (Alike)

/-- The sensor answers nothing exactly if it sees nobody, and otherwise with the first of the nearest
robots it sees. Robots that are alike can stand in for each other, a robot that is not seen or not
nearer can join, and any robot but the one found can leave. -/
theorem sensor_finds_nearest (s : Swarm) (me : Robot Float32) :
    (s.nearest? me = none ↔ ∀ o ∈ s.active, ∀ d, ¬me.Sees s.settings o d) ∧
    (∀ o d, s.nearest? me = some (o, d) ↔ ∃ i, me.Nearest s.settings s.active i o d) ∧
    (∀ others, List.Forall₂ Alike s.active others → ∀ i d,
      (∃ o, me.Nearest s.settings s.active i o d) ↔ ∃ o, me.Nearest s.settings others i o d) ∧
    (∀ r, ((∀ d, ¬me.Sees s.settings r d) ∨
        ∃ o d d', s.nearest? me = some (o, d) ∧ me.Sees s.settings r d' ∧
          orderKey32 d ≤ orderKey32 d') →
      { s with active := s.active ++ [r] }.nearest? me = s.nearest? me) ∧
    ∀ k, (∀ i o d, me.Nearest s.settings s.active i o d → i ≠ k) →
      { s with active := s.active.eraseIdx k }.nearest? me = s.nearest? me := by
  refine ⟨Robot.nearest?_eq_none_iff, fun _ _ => Robot.nearest?_eq_some_iff, ?_, ?_, ?_⟩
  · exact fun others alike i d => Robot.nearest_alike_iff alike
  · exact fun r idle => Robot.nearest?_append r idle
  · exact fun k other => Robot.nearest?_eraseIdx k other

/-- Two robots ahead of `east`, as far to the left of its course as to the right. -/
def flanked : Swarm :=
  { headOn with
    active := [east, .new ⟨"Port", .green, ⟨140.0, 190.0⟩, 0.0, 15.0⟩ headOn.arena .default,
      .new ⟨"Starboard", .blue, ⟨140.0, 210.0⟩, 0.0, 15.0⟩ headOn.arena .default] }

/-- The one that joined first is found. -/
theorem sensor_finds_nearest_flanked :
    ∃ o d i, flanked.nearest? east = some (o, d) ∧ o.name = "Port" ∧
      east.Nearest flanked.settings flanked.active i o d := by
  have port : (flanked.nearest? east).map (·.1.name) = some "Port" := by decide +kernel
  obtain ⟨⟨o, d⟩, found, name⟩ := Option.map_eq_some_iff.1 port
  obtain ⟨i, near⟩ := ((sensor_finds_nearest flanked east).2.1 o d).1 found
  exact ⟨o, d, i, found, name, near⟩

end Swarm

end RobotScript
