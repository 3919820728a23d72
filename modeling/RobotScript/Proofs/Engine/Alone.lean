import RobotScript.Engine.Basic
import RobotScript.Proofs.Engine.Pacing

/-!
# Jobs that run alone

An engine without jobs in the background puts nothing between the ticks of a job that it drives, so
the robot ends where the ticks and the finish of the job alone take it.
-/

namespace RobotScript

variable {α : Type} [Scalar α]

/-- A manoeuvre and its robot after ticks that nothing has come between. -/
def Manoeuvre.after (m : Manoeuvre α) (r : Robot α) : Nat → Manoeuvre α × Robot α
  | 0 => (m, r)
  | n + 1 => (m.after r n).1.tick (m.after r n).2

namespace Engine

/-- How the drive of a job begins. -/
def Driving.start (e : Engine α) (tracing : Bool) (m : Manoeuvre α) : Driving α :=
  { engine := e, manoeuvre := m, ticks := 0, slept := 0, stops := 0, tracing, trace := [] }

/-- Where the drive of a job stands after `k` ticks and the rests after them. -/
def Driving.course (e : Engine α) (stopAfter : Nat → Bool) (tracing : Bool) (t : Job α) (k : Nat) :
    Driving α :=
  Paced.course clock e.settings.tickInterval (tick stopAfter) (start e tracing t.manoeuvre) k

variable {e : Engine α} {stopAfter : Nat → Bool} {tracing : Bool} {t : Job α}

omit [Scalar α] in
/-- A rest changes nothing but the time. -/
theorem Driving.exists_rest (deadline : Nat) (d : Driving α) :
    ∃ slept, Paced.rest clock deadline d = { d with slept := slept } := by
  unfold Paced.rest
  dsimp only
  split
  · exact ⟨_, rfl⟩
  · exact ⟨d.slept, rfl⟩

theorem Driving.course_succ (e : Engine α) (stopAfter : Nat → Bool) (tracing : Bool) (t : Job α)
    (k : Nat) : ∃ slept,
    course e stopAfter tracing t (k + 1) =
      { (course e stopAfter tracing t k).tick stopAfter with slept := slept } :=
  exists_rest _ _

theorem round_of_alone (alone : e.background = []) : e.round = e := by
  unfold round
  rw [alone, Job.round, ← alone]

theorem Driving.tick_of_alone {d : Driving α} (alone : d.engine.background = []) :
    (d.tick stopAfter).engine.background = [] ∧
      ((d.tick stopAfter).manoeuvre, (d.tick stopAfter).engine.robot) =
        d.manoeuvre.tick d.engine.robot := by
  unfold Driving.tick
  dsimp only
  split <;> rw [round_of_alone (by exact alone)] <;> exact ⟨alone, rfl⟩

theorem Driving.course_of_alone (alone : e.background = []) (k : Nat) :
    (course e stopAfter tracing t k).engine.background = [] ∧
      ((course e stopAfter tracing t k).manoeuvre, (course e stopAfter tracing t k).engine.robot) =
        t.manoeuvre.after e.robot k := by
  induction k with
  | zero => exact ⟨alone, rfl⟩
  | succ k ih =>
    obtain ⟨slept, next⟩ := course_succ e stopAfter tracing t k
    rw [next, Manoeuvre.after, ← ih.2]
    exact tick_of_alone ih.1

theorem Driving.course_running (unstopped : ∀ i, stopAfter i = false) (k : Nat) :
    (course e stopAfter tracing t k).engine.running = e.running := by
  induction k with
  | zero => rfl
  | succ k ih =>
    obtain ⟨slept, next⟩ := course_succ e stopAfter tracing t k
    rw [next, ← ih]
    unfold Driving.tick
    dsimp only
    rw [unstopped, if_neg Bool.false_ne_true]
    rfl

/-- A drive goes along its course up to the ticks of the job or to a look that finds the flag
cleared, and finishes there. -/
theorem exists_drive (e : Engine α) (stopAfter : Nat → Bool) (tracing : Bool) (t : Job α) :
    ∃ n ≤ t.ticks, (n < t.ticks → (Driving.course e stopAfter tracing t n).engine.running = false) ∧
      (e.drive stopAfter tracing t).1 = decide (n = t.ticks) ∧
      (e.drive stopAfter tracing t).2.engine.robot =
        (Driving.course e stopAfter tracing t n).manoeuvre.finish
          (Driving.course e stopAfter tracing t n).engine.robot := by
  obtain ⟨n, le, -, cleared, driven⟩ := Paced.run_course Driving.clock e.settings.tickInterval
    (Driving.start e tracing t.manoeuvre) (paced stopAfter t)
  refine ⟨n, le, cleared, congrArg Prod.fst driven, ?_⟩
  exact congrArg (·.2.engine.robot) driven

/-- Alone and not cancelled, a job takes all its ticks and its finish. -/
theorem drive_of_alone (alone : e.background = [])
    (completed : (e.drive stopAfter tracing t).1 = true) :
    (e.drive stopAfter tracing t).2.engine.robot =
      (t.manoeuvre.after e.robot t.ticks).1.finish (t.manoeuvre.after e.robot t.ticks).2 := by
  obtain ⟨n, -, -, all, robot⟩ := exists_drive e stopAfter tracing t
  rw [completed, eq_comm, decide_eq_true_iff] at all
  rw [robot, ← all, ← (Driving.course_of_alone alone n).2]

/-- A job is completed unless it is stopped. -/
theorem drive_completed (running : e.running = true) (unstopped : ∀ i, stopAfter i = false) :
    (e.drive stopAfter tracing t).1 = true := by
  obtain ⟨n, le, cleared, all, -⟩ := exists_drive e stopAfter tracing t
  rw [all, decide_eq_true_iff]
  by_contra less
  have stopped := cleared (Nat.lt_of_le_of_ne le less)
  rw [Driving.course_running unstopped, running] at stopped
  cases stopped

end Engine

end RobotScript
