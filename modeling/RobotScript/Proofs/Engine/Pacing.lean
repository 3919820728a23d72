import Mathlib.Algebra.BigOperators.Intervals
import Mathlib.Algebra.Order.Group.Finset
import Mathlib.Order.Lattice.Nat
import RobotScript.Engine.Paced

/-!
# The pace of a run

A paced run takes its ticks in order until they are done or a look finds the flag cleared, and then
finishes once. Each tick is due one interval after the tick before it. A run is never early, and when
it is late by a step that took long it does not rest until it has caught up, so how late it is
depends on the latest delay that has not been made up for.
-/

namespace RobotScript

namespace Paced

/-! ### The course of a run -/

section Course

variable {σ : Type} (clock : Clock σ) (interval : Nat) (step : σ → σ) (s : σ)

/-- Where a run from `s` stands after `k` ticks and the rests after them. -/
def course : Nat → σ
  | 0 => s
  | k + 1 => rest clock (clock.now s + (k + 1) * interval) (step (course k))

/-- Ticks go on along the course up to their number, or to a look that finds the flag cleared. -/
theorem ticking_course (n k : Nat) :
    ∃ m, m ≤ k + n ∧ (∀ i, k ≤ i → i < m → clock.running (course clock interval step s i) = true) ∧
      (m < k + n → clock.running (course clock interval step s m) = false) ∧
      ticking clock interval step n (clock.now s + k * interval) (course clock interval step s k) =
        (decide (m = k + n), course clock interval step s m) := by
  induction n generalizing k with
  | zero => exact ⟨k, by omega, by omega, by omega, by simp [ticking]⟩
  | succ n ih =>
    cases looked : clock.running (course clock interval step s k) with
    | false =>
      refine ⟨k, by omega, by omega, fun _ => looked, ?_⟩
      simp [ticking, looked]
    | true =>
      obtain ⟨m, le, running, cleared, ticks⟩ := ih (k + 1)
      have deadline : clock.now s + k * interval + interval = clock.now s + (k + 1) * interval := by
        rw [Nat.add_mul, Nat.one_mul, Nat.add_assoc]
      refine ⟨m, by omega, ?_, fun early => cleared (by omega), ?_⟩
      · intro i low high
        rcases Nat.eq_or_lt_of_le low with rfl | later
        · exact looked
        · exact running i later high
      · have same : k + 1 + n = k + (n + 1) := by omega
        rw [ticking, if_pos looked, deadline, ← same]
        exact ticks

/-- A run takes its ticks along the course as long as its looks find the flag set, and its finish
where it stands then. -/
theorem run_course (p : Paced σ) :
    ∃ m ≤ p.ticks, (∀ k < m, clock.running (course clock interval p.step s k) = true) ∧
      (m < p.ticks → clock.running (course clock interval p.step s m) = false) ∧
      p.run clock interval s =
        (decide (m = p.ticks), p.finish.elim (course clock interval p.step s m)
          (· (course clock interval p.step s m))) := by
  obtain ⟨m, le, running, cleared, ticks⟩ := ticking_course clock interval p.step s p.ticks 0
  rw [Nat.zero_add] at le cleared ticks
  rw [Nat.zero_mul, Nat.add_zero] at ticks
  refine ⟨m, le, fun k early => running k (Nat.zero_le k) early, cleared, ?_⟩
  unfold run
  rw [show ticking clock interval p.step p.ticks (clock.now s) s = _ from ticks]

end Course

/-! ### Delays -/

section Arrival

variable (interval : Nat) (lasts : Nat → Nat)

/-- The time from the start of a run to the end of the rest after tick `k`, when the step of tick
`i + 1` takes `lasts i`. It is the longest of the ways there that start on time at some tick and take
all steps after it without a rest. -/
def arrival (k : Nat) : Nat :=
  (Finset.range (k + 1)).sup fun j => j * interval + ∑ i ∈ Finset.Ico j k, lasts i

theorem arrival_zero : arrival interval lasts 0 = 0 := by
  simp [arrival]

/-- The next tick ends when its step is over and the tick is due. -/
theorem arrival_succ (k : Nat) :
    arrival interval lasts (k + 1) =
      max (arrival interval lasts k + lasts k) ((k + 1) * interval) := by
  have longer : ∀ j ∈ Finset.range (k + 1),
      j * interval + ∑ i ∈ Finset.Ico j (k + 1), lasts i =
        j * interval + ∑ i ∈ Finset.Ico j k, lasts i + lasts k := by
    intro j member
    have le : j ≤ k := by simpa [Nat.lt_succ_iff] using member
    rw [Finset.sum_Ico_succ_top le, Nat.add_assoc]
  rw [arrival, Finset.range_add_one, Finset.sup_insert, Finset.sup_congr rfl longer,
    ← Finset.sup_add Finset.nonempty_range_add_one, max_comm]
  simp [arrival]

theorem le_arrival {j k : Nat} (le : j ≤ k) :
    j * interval + ∑ i ∈ Finset.Ico j k, lasts i ≤ arrival interval lasts k := by
  apply Finset.le_sup (f := fun j => j * interval + ∑ i ∈ Finset.Ico j k, lasts i)
  exact Finset.mem_range.2 (Nat.lt_succ_of_le le)

theorem due_le_arrival (k : Nat) : k * interval ≤ arrival interval lasts k := by
  simpa using le_arrival interval lasts (Nat.le_refl k)

/-- A run is on time exactly if the steps since any tick have taken no longer than their ticks. -/
theorem arrival_eq_due_iff (k : Nat) :
    arrival interval lasts k = k * interval ↔
      ∀ j ≤ k, ∑ i ∈ Finset.Ico j k, lasts i ≤ (k - j) * interval := by
  constructor
  · intro due j le
    have bound := le_arrival interval lasts le
    rw [due] at bound
    rw [Nat.sub_mul]
    omega
  · intro slack
    apply Nat.le_antisymm _ (due_le_arrival interval lasts k)
    apply Finset.sup_le
    intro j member
    have le : j ≤ k := by simpa [Nat.lt_succ_iff] using member
    calc j * interval + ∑ i ∈ Finset.Ico j k, lasts i
        ≤ j * interval + (k - j) * interval := Nat.add_le_add_left (slack j le) _
      _ = k * interval := by rw [← Nat.add_mul, Nat.add_sub_of_le le]

/-- A step of two and a half intervals is made up for in the third tick. -/
example : (List.range 4).map (arrival 10 fun i => if i = 0 then 25 else 0) = [0, 25, 25, 30] := by
  decide

end Arrival

end Paced

/-! ### Runs on a clock of their own -/

/-- What a run changes, the time, and how many steps it has taken. -/
structure Timeline (ρ : Type) where
  place : ρ
  time : Nat
  steps : Nat

namespace Timeline

open Paced (rest course arrival)

variable {ρ : Type}

/-- Sleeps last as long as they should, and the look after `k` steps finds the flag as `flag k`. -/
def clock (flag : Nat → Bool) : Clock (Timeline ρ) where
  running t := flag t.steps
  now t := t.time
  sleep n t := { t with time := t.time + n }

/-- A step that takes a time of its own. What it does may depend on when it is taken. -/
def step (lasts : Nat → Nat) (act : Nat → ρ → ρ) (t : Timeline ρ) : Timeline ρ :=
  ⟨act t.time t.place, t.time + lasts t.steps, t.steps + 1⟩

def finish (act : Nat → ρ → ρ) (t : Timeline ρ) : Timeline ρ :=
  { t with place := act t.time t.place }

/-- A run of `n` such steps, for which each of `finishes` was asked for in turn. -/
def paced (label : String) (n : Nat) (lasts : Nat → Nat) (act : Nat → ρ → ρ)
    (finishes : List (Nat → ρ → ρ)) : Paced (Timeline ρ) :=
  finishes.foldl (fun p act => p.onFinish (finish act)) (.new label n (step lasts act))

theorem paced_eq (label : String) (n : Nat) (lasts : Nat → Nat) (act : Nat → ρ → ρ)
    (finishes : List (Nat → ρ → ρ)) :
    paced label n lasts act finishes =
      { label := label, ticks := n, step := step lasts act
        finish := finishes.getLast?.map finish } := by
  induction finishes using List.reverseRecOn with
  | nil => rfl
  | append_singleton finishes last ih =>
    unfold paced at ih ⊢
    rw [List.foldl_append, ih]
    simp [Paced.onFinish]

theorem rest_eq (flag : Nat → Bool) (deadline : Nat) (t : Timeline ρ) :
    rest (clock flag) deadline t = { t with time := max t.time deadline } := by
  unfold rest clock
  dsimp only
  split
  · have reached : t.time + (deadline - t.time) = max t.time deadline := by omega
    rw [reached]
  · have passed : max t.time deadline = t.time := by omega
    rw [passed]

/-- What the first `k` steps make of a place when each is taken at the time the one before it is
over. -/
def acted (interval start : Nat) (lasts : Nat → Nat) (act : Nat → ρ → ρ) (place : ρ) (k : Nat) : ρ :=
  (List.range k).foldl (fun place i => act (start + arrival interval lasts i) place) place

theorem course_eq (flag : Nat → Bool) (interval start : Nat) (lasts : Nat → Nat)
    (act : Nat → ρ → ρ) (place : ρ) (k : Nat) :
    course (clock flag) interval (step lasts act) ⟨place, start, 0⟩ k =
      { place := acted interval start lasts act place k
        time := start + arrival interval lasts k
        steps := k } := by
  induction k with
  | zero => simp [course, acted, Paced.arrival_zero]
  | succ k ih =>
    have later : max (start + arrival interval lasts k + lasts k) (start + (k + 1) * interval) =
        start + arrival interval lasts (k + 1) := by
      rw [Paced.arrival_succ, Nat.add_assoc, Nat.add_max_add_left]
    rw [course, ih, rest_eq]
    simp only [step, acted, List.range_succ, List.foldl_append, List.foldl_cons, List.foldl_nil]
    exact congrArg (Timeline.mk _ · (k + 1)) later

/-- Whatever time the steps take and whatever the looks at the flag find, a run takes as many of its
steps as looks come before one that finds the flag cleared, each when the one before it is over and
due, and then its latest finish. It is never early, and late only for a delay that has not been made
up for. -/
theorem run_keeps_pace (label : String) (n interval start : Nat) (lasts : Nat → Nat)
    (flag : Nat → Bool) (act : Nat → ρ → ρ) (finishes : List (Nat → ρ → ρ)) (place : ρ) :
    (∃ m ≤ n, (∀ k < m, flag k = true) ∧ (m < n → flag m = false) ∧
      (paced label n lasts act finishes).run (clock flag) interval ⟨place, start, 0⟩ =
        (decide (m = n),
          { place := (finishes.getLast?.elim id fun last => last (start + arrival interval lasts m))
              (acted interval start lasts act place m)
            time := start + arrival interval lasts m
            steps := m })) ∧
    ∀ k, k * interval ≤ arrival interval lasts k ∧
      (arrival interval lasts k = k * interval ↔
        ∀ j ≤ k, ∑ i ∈ Finset.Ico j k, lasts i ≤ (k - j) * interval) := by
  refine ⟨?_, fun k => ⟨Paced.due_le_arrival interval lasts k,
    Paced.arrival_eq_due_iff interval lasts k⟩⟩
  obtain ⟨m, le, running, cleared, result⟩ :=
    Paced.run_course (clock flag) interval ⟨place, start, 0⟩ (paced label n lasts act finishes)
  simp only [paced_eq, course_eq] at le running cleared result
  refine ⟨m, le, running, cleared, ?_⟩
  rw [paced_eq, result]
  cases finishes.getLast? <;> rfl

end Timeline

end RobotScript
