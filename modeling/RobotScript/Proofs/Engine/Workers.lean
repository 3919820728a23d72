import RobotScript.Engine.Crew

/-!
# Workers and their count

What a step of a job and a step of a worker can do, said once, and that every change of a worker
which changes its place in the count changes the count with it.
-/

namespace RobotScript

variable {σ : Type} {ground : Ground σ}

/-! ### The run of a job -/

/-- The steps of a run before its last one. -/
inductive Progress.Advances (running : Bool) : Progress → Progress → Prop
  | exhausted {job} (none : job.ticks = 0) : Advances running (.looking job) (.finishing job)
  | stopped {job} (cleared : running = false) : Advances running (.looking job) (.finishing job)
  | passed {job ticks} (some : job.ticks = ticks + 1) (set : running = true) :
    Advances running (.looking job) (.ticking { job with ticks := ticks })
  | ticked {job manoeuvre} :
    Advances running (.ticking job) (.looking { job with manoeuvre := manoeuvre })

theorem Progress.advance_cases {running : Bool} {p : Progress} {s t : σ} {next : Option Progress}
    (step : p.advance ground running s = (next, t)) :
    (∃ p', next = some p' ∧ p.Advances running p') ∨ ∃ job, p = .finishing job ∧ next = none := by
  cases p with
  | looking job =>
    rw [advance] at step
    split at step
    · rename_i none
      cases step
      exact .inl ⟨_, rfl, .exhausted none⟩
    · rename_i ticks some
      cases step
      cases running with
      | true => exact .inl ⟨_, rfl, .passed some rfl⟩
      | false => exact .inl ⟨_, rfl, .stopped rfl⟩
  | ticking job =>
    cases step
    exact .inl ⟨_, rfl, .ticked⟩
  | finishing job =>
    cases step
    exact .inr ⟨job, rfl, rfl⟩

/-! ### Workers -/

/-- The steps of a worker that has been started. -/
inductive Worker.Advances (running : Bool) : Worker → Worker → Prop
  | work {p p'} (advances : p.Advances running p') : Advances running (.working p) (.working p')
  | finish {job} : Advances running (.working (.finishing job)) .leaving
  | leave : Advances running .leaving .gone

theorem Worker.Advances.isCounted {running : Bool} {worker worker' : Worker}
    (advances : worker.Advances running worker') : worker.isCounted = true := by
  cases advances <;> rfl

namespace Crew

/-- What the step of a worker can do: one worker moves on, and the count drops by one exactly when
that worker lets go. -/
theorem advance_cases {c c' : Crew σ} {i : Nat} (step : c.advance ground i = some c') :
    ∃ worker worker', c.workers[i]? = some worker ∧ worker.Advances c.running worker' ∧
      c'.workers = c.workers.set i worker' ∧ c'.running = c.running ∧
      c'.count = if worker'.isCounted then c.count else c.count - 1 := by
  unfold advance at step
  split at step
  · rename_i p found
    rcases advanced : p.advance ground c.running c.place with ⟨next, place⟩
    rw [advanced] at step
    cases step
    obtain ⟨p', rfl, advances⟩ | ⟨job, rfl, rfl⟩ := Progress.advance_cases advanced
    · exact ⟨_, _, found, .work advances, rfl, rfl, rfl⟩
    · exact ⟨_, _, found, .finish, rfl, rfl, rfl⟩
  · rename_i found
    cases step
    exact ⟨_, _, found, .leave, rfl, rfl, rfl⟩
  · cases step

/-! ### The count -/

theorem live_eq_zero {c : Crew σ} : c.live = 0 ↔ ∀ worker ∈ c.workers, worker = .gone := by
  rw [live, List.countP_eq_zero]
  constructor
  · intro none worker member
    have := none worker member
    cases worker with
    | gone => rfl
    | counted | working | leaving => simp [Worker.isCounted] at this
  · intro all worker member
    rw [all worker member]
    decide

theorem live_pos {c : Crew σ} {worker : Worker} (member : worker ∈ c.workers)
    (counted : worker.isCounted = true) : 0 < c.live :=
  List.countP_pos_iff.2 ⟨worker, member, counted⟩

theorem countP_set {workers : List Worker} {i : Nat} {worker : Worker} (worker' : Worker)
    (found : workers[i]? = some worker) (counted : worker.isCounted = true) :
    (workers.set i worker').countP Worker.isCounted =
      if worker'.isCounted then workers.countP Worker.isCounted
      else workers.countP Worker.isCounted - 1 := by
  obtain ⟨inside, rfl⟩ := List.getElem?_eq_some_iff.1 found
  have positive : 0 < workers.countP Worker.isCounted :=
    List.countP_pos_iff.2 ⟨_, List.getElem_mem inside, counted⟩
  rw [List.countP_set inside, if_pos counted]
  split <;> omega

theorem tallied_register {c : Crew σ} (tallied : c.count = c.live) (job : Job Float32) :
    (c.register job).count = (c.register job).live := by
  show c.count + 1 = (c.workers ++ [Worker.counted job]).countP Worker.isCounted
  rw [List.countP_append, tallied]
  rfl

theorem start_eq {c : Crew σ} {i : Nat} {job : Job Float32}
    (found : c.workers[i]? = some (.counted job)) :
    c.start i = { c with workers := c.workers.set i (.working (.looking job)) } := by
  rw [start, found]

theorem start_running (c : Crew σ) (i : Nat) : (c.start i).running = c.running := by
  unfold start
  split <;> rfl

theorem start_place (c : Crew σ) (i : Nat) : (c.start i).place = c.place := by
  unfold start
  split <;> rfl

theorem launch_workers (starts : Bool) (job : Job Float32) (c : Crew σ) :
    (launch starts job c).workers =
      c.workers ++ [if starts then .working (.looking job) else .gone] := by
  have counted : (c.register job).workers[c.workers.length]? = some (.counted job) :=
    List.getElem?_concat_length
  rw [launch, start_eq counted]
  cases starts <;> simp [register, release]

theorem tallied_start {c : Crew σ} {i : Nat} {job : Job Float32} (tallied : c.count = c.live)
    (found : c.workers[i]? = some (.counted job)) : (c.start i).count = (c.start i).live := by
  rw [start_eq found]
  show c.count = (c.workers.set i _).countP Worker.isCounted
  rw [countP_set _ found rfl, tallied]
  rfl

theorem tallied_release {c : Crew σ} {i : Nat} {worker : Worker} (tallied : c.count = c.live)
    (found : c.workers[i]? = some worker) (counted : worker.isCounted = true) :
    (c.release i).count = (c.release i).live := by
  show c.count - 1 = (c.workers.set i .gone).countP Worker.isCounted
  rw [countP_set _ found counted, tallied]
  rfl

theorem tallied_advance {c c' : Crew σ} {i : Nat} (tallied : c.count = c.live)
    (step : c.advance ground i = some c') : c'.count = c'.live := by
  obtain ⟨worker, worker', found, advances, workers, -, count⟩ := advance_cases step
  rw [live, workers, countP_set _ found advances.isCounted, count, tallied]
  rfl

end Crew

end RobotScript
