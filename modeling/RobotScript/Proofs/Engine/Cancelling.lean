import RobotScript.Proofs.Engine.Workers

/-!
# Cancelled jobs

All workers look at one flag, which a stop clears and a resumption sets again. Whether a worker is
cancelled by a stop is therefore decided at its next look.
-/

namespace RobotScript

variable {σ : Type} {ground : Ground σ}

/-! ### Workers past their last look -/

/-- The worker has no tick to run any more. -/
def Worker.isDone : Worker → Bool
  | .working (.finishing _) | .leaving | .gone => true
  | .counted _ | .working _ => false

theorem Worker.Advances.isDone {running : Bool} {worker worker' : Worker}
    (advances : worker.Advances running worker') (done : worker.isDone = true) :
    worker'.isDone = true := by
  cases advances with
  | work advances =>
    cases advances with
    | exhausted | stopped | passed | ticked => cases done
  | finish | leave => rfl

theorem Worker.Advances.isDone_of_looking {running : Bool} {job : Job Float32} {worker : Worker}
    (advances : (Worker.working (.looking job)).Advances running worker)
    (cleared : running = false) : worker.isDone = true := by
  cases advances with
  | work advances =>
    cases advances with
    | exhausted | stopped => rfl
    | passed some set => rw [cleared] at set; cases set

namespace Crew

/-! ### What one act does to one worker -/

/-- The value that an act gives the flag. -/
def Act.flag? : Act σ → Option Bool
  | .stop => some false
  | .resume => some true
  | .command .. | .worker _ | .disturb _ => none

theorem step_running {c c' : Crew σ} {act : Act σ} (step : c.step ground act = some c') :
    c'.running = act.flag?.getD c.running := by
  cases act with
  | command text starts =>
    rw [Crew.step] at step
    split at step
    · cases step
      rw [launch]
      split
      · exact start_running _ _
      · rfl
    · cases step
      rfl
  | worker i =>
    obtain ⟨_, _, _, _, _, running, _⟩ := advance_cases step
    exact running
  | stop | resume | disturb =>
    cases step
    rfl

/-- A worker moves only by its own steps. -/
theorem step_worker_eq {c c' : Crew σ} {act : Act σ} {i : Nat} {worker : Worker}
    (found : c.workers[i]? = some worker) (other : act ≠ .worker i)
    (step : c.step ground act = some c') : c'.workers[i]? = some worker := by
  cases act with
  | command text starts =>
    rw [Crew.step] at step
    split at step
    · cases step
      rw [launch_workers]
      exact List.getElem?_append_left (List.getElem?_eq_some_iff.1 found).1 |>.trans found
    · cases step
      exact found
  | worker j =>
    have distinct : j ≠ i := fun same => other (same ▸ rfl)
    obtain ⟨_, _, _, _, workers, _, _⟩ := advance_cases step
    rw [workers, List.getElem?_set_ne distinct, found]
  | stop | resume | disturb =>
    cases step
    exact found

/-- The step of a worker is one of its own. -/
theorem step_worker {c c' : Crew σ} {i : Nat} {worker : Worker}
    (found : c.workers[i]? = some worker) (step : c.step ground (.worker i) = some c') :
    ∃ worker', worker.Advances c.running worker' ∧ c'.workers[i]? = some worker' := by
  obtain ⟨old, worker', found', advances, workers, -, -⟩ := advance_cases step
  rw [found] at found'
  cases found'
  refine ⟨worker', advances, ?_⟩
  rw [workers, List.getElem?_set_self (List.getElem?_eq_some_iff.1 found).1]

theorem exists_tick (ground : Ground σ) {c : Crew σ} {i : Nat} {job : Job Float32}
    (found : c.workers[i]? = some (.working (.looking job))) (left : 0 < job.ticks)
    (set : c.running = true) :
    ∃ c', c.advance ground i = some c' ∧
      c'.workers[i]? = some (.working (.ticking { job with ticks := job.ticks - 1 })) := by
  obtain ⟨ticks, more⟩ := Nat.exists_eq_add_of_lt left
  have passed : (Progress.looking job).advance ground c.running c.place =
      (some (.ticking { job with ticks := job.ticks - 1 }), c.place) := by
    rw [Progress.advance, set, more, Nat.zero_add]
    rfl
  refine ⟨_, by rw [advance, found], ?_⟩
  rw [passed]
  exact List.getElem?_set_self (List.getElem?_eq_some_iff.1 found).1

/-! ### What a run does to one worker -/

theorem run_running {c c' : Crew σ} {acts : List (Act σ)} (ran : c.run ground acts = some c') :
    c'.running = (acts.filterMap Act.flag?).getLast?.getD c.running := by
  induction acts generalizing c with
  | nil =>
    cases ran
    rfl
  | cons act acts ih =>
    obtain ⟨between, step, ran⟩ := Option.bind_eq_some_iff.1 ran
    rw [ih ran, step_running step, List.filterMap_cons]
    cases act.flag? with
    | none => rfl
    | some flag => rw [List.getLast?_cons]; rfl

theorem run_worker_eq {c c' : Crew σ} {acts : List (Act σ)} {i : Nat} {worker : Worker}
    (found : c.workers[i]? = some worker) (others : ∀ act ∈ acts, act ≠ .worker i)
    (ran : c.run ground acts = some c') : c'.workers[i]? = some worker := by
  induction acts generalizing c with
  | nil =>
    cases ran
    exact found
  | cons act acts ih =>
    obtain ⟨between, step, ran⟩ := Option.bind_eq_some_iff.1 ran
    obtain ⟨other, others⟩ := List.forall_mem_cons.1 others
    exact ih (step_worker_eq found other step) others ran

theorem run_isDone {c c' : Crew σ} {acts : List (Act σ)} {i : Nat} {worker : Worker}
    (found : c.workers[i]? = some worker) (done : worker.isDone = true)
    (ran : c.run ground acts = some c') :
    ∃ worker', c'.workers[i]? = some worker' ∧ worker'.isDone = true := by
  induction acts generalizing c worker with
  | nil =>
    cases ran
    exact ⟨worker, found, done⟩
  | cons act acts ih =>
    obtain ⟨between, step, ran⟩ := Option.bind_eq_some_iff.1 ran
    by_cases own : act = .worker i
    · obtain ⟨worker', advances, found⟩ := step_worker found (own ▸ step)
      exact ih found (advances.isDone done) ran
    · exact ih (step_worker_eq found own step) done ran

/-- A stop cancels a worker unless it is resumed before the worker's next step. If the last of the
stops and resumptions before that step is a resumption, the worker goes on with its next tick;
otherwise it never runs a tick again, whatever happens later. -/
theorem ticks_on_iff_resumed {c c' : Crew σ} {i : Nat} {job : Job Float32} {before : List (Act σ)}
    (live : c.workers[i]? = some (.working (.looking job))) (left : 0 < job.ticks)
    (others : ∀ act ∈ before, act ≠ .worker i)
    (ran : c.run ground (.stop :: before) = some c') :
    (∃ later c'' next, c'.run ground (.worker i :: later) = some c'' ∧
      c''.workers[i]? = some (.working (.ticking next))) ↔
    (before.filterMap Act.flag?).getLast? = some true := by
  obtain ⟨stopped, step, ran⟩ := Option.bind_eq_some_iff.1 ran
  have waiting : stopped.workers[i]? = some (.working (.looking job)) := by
    cases step
    exact live
  have found := run_worker_eq waiting others ran
  have running : c'.running = (before.filterMap Act.flag?).getLast?.getD false := by
    rw [run_running ran, step_running step]
    rfl
  constructor
  · rintro ⟨later, c'', next, ticks, ticking⟩
    obtain ⟨between, step, later⟩ := Option.bind_eq_some_iff.1 ticks
    obtain ⟨worker', advances, found'⟩ := step_worker found step
    cases flag : c'.running with
    | true =>
      rw [flag] at running
      cases resumed : (before.filterMap Act.flag?).getLast? with
      | none => rw [resumed] at running; cases running
      | some last => rw [resumed] at running; rw [running]; rfl
    | false =>
      -- a resumption comes too late for a worker that has found the flag cleared
      have done : worker'.isDone = true := advances.isDone_of_looking flag
      obtain ⟨final, here, done⟩ := run_isDone found' done later
      rw [ticking] at here
      cases here
      cases done
  · intro resumed
    rw [resumed] at running
    obtain ⟨c'', step, ticking⟩ := exists_tick ground found left running
    exact ⟨[], c'', _, by rw [run, Crew.step, step]; rfl, ticking⟩

end Crew

/-- An engine with a job of two more ticks in the background. -/
def Engine.moving : Engine Float32 :=
  let robot : Robot Float32 :=
    .new ⟨"Rover", .red, ⟨50.0, 50.0⟩, 0.0, 15.0⟩ ⟨⟨0.0, 0.0⟩, ⟨400.0, 400.0⟩⟩ .default
  { Engine.new robot .default .standard with background := [⟨"MOVE", 2, .straight 1.0⟩] }

theorem ticks_on_iff_resumed_moving :
    ∃ c later c' next, (Crew.ofEngine .moving .moving).run Engine.ground [.stop, .resume] = some c ∧
      c.run Engine.ground (.worker 0 :: later) = some c' ∧
      c'.workers[0]? = some (.working (.ticking next)) := by
  have ran : (Crew.ofEngine .moving Engine.moving).run Engine.ground [.stop, .resume] = some _ := rfl
  have resumed := (Crew.ticks_on_iff_resumed (i := 0) rfl (by decide) (by simp) ran).2 rfl
  obtain ⟨later, c', next, onward, ticking⟩ := resumed
  exact ⟨_, later, c', next, ran, onward, ticking⟩

/-- A job that was in the background at a stop runs its next tick after it if the engine is resumed
before the next round. -/
theorem resumption_revives :
    Engine.moving.stop.round.background = [] ∧
      Engine.moving.stop.resume.round.background.map (·.ticks) = [1] :=
  ⟨rfl, rfl⟩

end RobotScript
