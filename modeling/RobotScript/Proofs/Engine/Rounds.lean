import Mathlib.Logic.Relation
import RobotScript.Proofs.Engine.Workers

/-!
# Rounds as interleavings

A round of the jobs in the background is what their workers do when they take turns, each up to its
next look at the flag or to its end.
-/

namespace RobotScript

variable {σ : Type}

/-- Ground on which jobs move the one robot `robot` and change nothing else. -/
structure Ground.Carries (ground : Ground σ) (robot : σ → Robot Float32)
    (put : Robot Float32 → σ → σ) : Prop where
  tick : ∀ manoeuvre s, ground.tick manoeuvre s =
    ((manoeuvre.tick (robot s)).1, put (manoeuvre.tick (robot s)).2 s)
  finish : ∀ manoeuvre s, ground.finish manoeuvre s = put (manoeuvre.finish (robot s)) s
  robot_put : ∀ r s, robot (put r s) = r
  put_put : ∀ r r' s, put r' (put r s) = put r' s
  put_robot : ∀ s, put (robot s) s = s

theorem Engine.ground_carries :
    Engine.ground.Carries (·.robot) fun robot e => { e with robot } :=
  ⟨fun _ _ => rfl, fun _ _ => rfl, fun _ _ => rfl, fun _ _ _ => rfl, fun _ => rfl⟩

/-- A worker between two ticks, or one that is gone. -/
def Worker.between : Option (Job Float32) → Worker
  | none => .gone
  | some job => .working (.looking job)

namespace Crew

/-- Steps of workers only. -/
def Works (ground : Ground σ) : Crew σ → Crew σ → Prop :=
  Relation.ReflTransGen fun c c' => ∃ i, c.advance ground i = some c'

theorem run_append {ground : Ground σ} {before after : List (Act σ)} {c : Crew σ} :
    c.run ground (before ++ after) = (c.run ground before).bind (run ground after) := by
  induction before generalizing c with
  | nil => rfl
  | cons act before ih =>
    rw [List.cons_append, run, run, Option.bind_assoc]
    congr 1
    funext between
    exact ih

theorem Works.run {ground : Ground σ} {c c' : Crew σ} (works : Works ground c c') :
    ∃ acts, c.run ground acts = some c' := by
  induction works with
  | refl => exact ⟨[], rfl⟩
  | tail _ step ih =>
    obtain ⟨acts, reached⟩ := ih
    obtain ⟨i, advanced⟩ := step
    refine ⟨acts ++ [.worker i], ?_⟩
    rw [run_append, reached, Option.bind_some, Crew.run, Crew.step, advanced]
    rfl

/-- All workers are between two ticks or gone, and these are their jobs. -/
def Rests (c : Crew σ) (jobs : List (Job Float32)) : Prop :=
  ∃ slots : List (Option (Job Float32)),
    c.workers = slots.map Worker.between ∧ slots.filterMap id = jobs

variable {ground : Ground σ} {robot : σ → Robot Float32} {put : Robot Float32 → σ → σ}

theorem works_working {c : Crew σ} {earlier later : List Worker} {p : Progress}
    {next : Option Progress} {place : σ} (here : c.workers = earlier ++ .working p :: later)
    (advanced : p.advance ground c.running c.place = (next, place)) :
    ∃ c', Works ground c c' ∧ c'.running = c.running ∧
      c'.workers = earlier ++ next.elim .leaving .working :: later ∧ c'.place = place := by
  refine ⟨{ c with workers := _, place := place }, .single ⟨earlier.length, ?_⟩, rfl, rfl, rfl⟩
  simp [advance, here, advanced]

variable (ground) in
theorem works_leaving {c : Crew σ} {earlier later : List Worker}
    (here : c.workers = earlier ++ .leaving :: later) :
    ∃ c', Works ground c c' ∧ c'.running = c.running ∧ c'.workers = earlier ++ .gone :: later ∧
      c'.place = c.place := by
  refine ⟨{ c with count := c.count - 1, workers := _ }, .single ⟨earlier.length, ?_⟩, rfl, rfl, rfl⟩
  simp [advance, release, here]

theorem ofEngine_rests (e : Engine Float32) (place : σ) : (ofEngine e place).Rests e.background := by
  refine ⟨e.background.map some, ?_, ?_⟩
  · rw [ofEngine, List.map_map]
    rfl
  · rw [List.filterMap_map]
    exact List.filterMap_some

/-- The turn of one worker: a tick, or its end if it is done or has been stopped. -/
theorem works_turn (carries : ground.Carries robot put) {c : Crew σ} {earlier later : List Worker}
    {job : Job Float32} (here : c.workers = earlier ++ .working (.looking job) :: later) :
    ∃ c', Works ground c c' ∧ c'.running = c.running ∧
      c'.workers = earlier ++ .between (job.step c.running (robot c.place)).1 :: later ∧
      c'.place = put (job.step c.running (robot c.place)).2 c.place := by
  cases onward : c.running && decide (0 < job.ticks) with
  | true =>
    obtain ⟨set, left⟩ := Bool.and_eq_true_iff.1 onward
    obtain ⟨ticks, more⟩ := Nat.exists_eq_succ_of_ne_zero (Nat.ne_of_gt (of_decide_eq_true left))
    have passes : (Progress.looking job).advance ground c.running c.place =
        (some (.ticking { job with ticks := ticks }), c.place) := by
      rw [Progress.advance, set, more]
      rfl
    obtain ⟨c₁, looked, running₁, workers₁, place₁⟩ := works_working here passes
    have ticks : (Progress.ticking { job with ticks := ticks }).advance ground c₁.running c₁.place =
        ((job.step c.running (robot c.place)).1.map .looking,
          put (job.step c.running (robot c.place)).2 c.place) := by
      rw [Progress.advance, place₁, carries.tick, Job.step, onward, if_pos rfl, more,
        Nat.succ_sub_one]
      rfl
    obtain ⟨c₂, ticked, running₂, workers₂, place₂⟩ := works_working workers₁ ticks
    refine ⟨c₂, looked.trans ticked, running₂.trans running₁, ?_, place₂⟩
    rw [workers₂, Job.step, onward, if_pos rfl]
    rfl
  | false =>
    have stops : (Progress.looking job).advance ground c.running c.place =
        (some (.finishing job), c.place) := by
      rw [Progress.advance]
      split
      · rfl
      · rename_i ticks more
        have cleared : c.running = false := by simpa [more] using onward
        rw [cleared]
        rfl
    obtain ⟨c₁, looked, running₁, workers₁, place₁⟩ := works_working here stops
    have finishes : (Progress.finishing job).advance ground c₁.running c₁.place =
        (none, put (job.step c.running (robot c.place)).2 c.place) := by
      rw [Progress.advance, place₁, carries.finish, Job.step, onward]
      rfl
    obtain ⟨c₂, finished, running₂, workers₂, place₂⟩ := works_working workers₁ finishes
    obtain ⟨c₃, left, running₃, workers₃, place₃⟩ := works_leaving ground workers₂
    refine ⟨c₃, (looked.trans finished).trans left, running₃.trans (running₂.trans running₁), ?_,
      place₃.trans place₂⟩
    rw [workers₃, Job.step, onward]
    rfl

theorem works_round (carries : ground.Carries robot put) {c : Crew σ} {earlier : List Worker}
    {slots : List (Option (Job Float32))} (here : c.workers = earlier ++ slots.map .between) :
    ∃ (c' : Crew σ) (slots' : List (Option (Job Float32))), Works ground c c' ∧
      c'.running = c.running ∧ c'.workers = earlier ++ slots'.map .between ∧
      slots'.filterMap id = (Job.round c.running (slots.filterMap id) (robot c.place)).1 ∧
      c'.place = put (Job.round c.running (slots.filterMap id) (robot c.place)).2 c.place := by
  -- the workers in `earlier` have had their turn, those in `slots` not yet
  induction slots generalizing c earlier with
  | nil => exact ⟨c, [], .refl, rfl, here, rfl, (carries.put_robot c.place).symm⟩
  | cons slot slots ih =>
    cases slot with
    | none =>
      have onward : c.workers = (earlier ++ [.gone]) ++ slots.map .between := by
        rw [here, List.append_assoc]
        rfl
      obtain ⟨c', slots', works, running, workers, jobs, place⟩ := ih onward
      refine ⟨c', none :: slots', works, running, ?_, jobs, place⟩
      rw [workers, List.append_assoc]
      rfl
    | some job =>
      obtain ⟨c₁, turn, running₁, workers₁, place₁⟩ := works_turn carries here
      rcases stepped : job.step c.running (robot c.place) with ⟨slot, r⟩
      rw [stepped] at workers₁ place₁
      have onward : c₁.workers = (earlier ++ [.between slot]) ++ slots.map .between := by
        rw [workers₁, List.append_assoc]
        rfl
      obtain ⟨c₂, slots', works, running₂, workers₂, jobs, place₂⟩ := ih onward
      rw [running₁, place₁, carries.robot_put] at jobs place₂
      refine ⟨c₂, slot :: slots', turn.trans works, running₂.trans running₁, ?_, ?_, ?_⟩
      · rw [workers₂, List.append_assoc]
        rfl
      · simp only [List.filterMap_cons, id, Job.round, stepped]
        cases slot with
        | none => exact jobs
        | some job => exact congrArg (job :: ·) jobs
      · rw [place₂, carries.put_put]
        simp only [List.filterMap_cons, id, Job.round, stepped]

theorem Rests.round (carries : ground.Carries robot put) {c : Crew σ} {jobs : List (Job Float32)}
    (rests : c.Rests jobs) :
    ∃ c', Works ground c c' ∧ c'.running = c.running ∧
      c'.Rests (Job.round c.running jobs (robot c.place)).1 ∧
      c'.place = put (Job.round c.running jobs (robot c.place)).2 c.place := by
  obtain ⟨slots, here, rfl⟩ := rests
  obtain ⟨c', slots', works, running, workers, jobs, place⟩ :=
    works_round carries (List.nil_append (slots.map Worker.between) ▸ here)
  exact ⟨c', works, running, ⟨slots', workers, jobs⟩, place⟩

/-- A worker takes its first turn as soon as it has been started. -/
theorem Rests.launch (carries : ground.Carries robot put) {c : Crew σ} {jobs : List (Job Float32)}
    (rests : c.Rests jobs) (job : Job Float32) :
    ∃ c', Works ground ((c.register job).start c.workers.length) c' ∧ c'.running = c.running ∧
      c'.Rests (jobs ++ (job.step c.running (robot c.place)).1.toList) ∧
      c'.place = put (job.step c.running (robot c.place)).2 c.place := by
  obtain ⟨slots, here, rfl⟩ := rests
  have started : ((c.register job).start c.workers.length).workers =
      c.workers ++ .working (.looking job) :: [] := launch_workers true job c
  have unmoved : ((c.register job).start c.workers.length).running = c.running ∧
      ((c.register job).start c.workers.length).place = c.place :=
    ⟨start_running _ _, start_place _ _⟩
  obtain ⟨c', works, running, workers, place⟩ := works_turn carries started
  rw [unmoved.1, unmoved.2] at workers place
  refine ⟨c', works, running.trans unmoved.1,
    ⟨slots ++ [(job.step c.running (robot c.place)).1], ?_, ?_⟩, place⟩
  · rw [workers, here, List.map_append]
    rfl
  · rw [List.filterMap_append]
    cases (job.step c.running (robot c.place)).1 <;> rfl

end Crew

/-! ### Engines -/

namespace Engine

/-- The engine with another flag and other jobs in the background. -/
def withCells (e : Engine Float32) (running : Bool) (jobs : List (Job Float32)) : Engine Float32 :=
  { e with running := running, background := jobs }

theorem perform_withCells (e : Engine Float32) (command : Command Float32) (running : Bool)
    (jobs : List (Job Float32)) :
    (e.withCells running jobs).perform command =
      (e.perform command).map id (·.withCells running jobs) := by
  have settings : (e.withCells running jobs).settings = e.settings := rfl
  cases command with
  | move distance timing =>
    simp only [perform, move]
    cases duration? timing <;> rfl
  | turn degrees timing =>
    simp only [perform, turn]
    cases duration? timing <;> rfl
  | arc radius degrees timing =>
    simp only [perform]
    split
    · rfl
    · simp only [arc, withCells]
      cases Arc.start e.robot.motion.position e.robot.motion.heading radius with
      | error fault => rfl
      | ok arc => cases duration? timing <;> rfl
  | sound frequency millis wait =>
    simp only [perform, sound, settings]
    split
    · rfl
    · split <;> rfl
  | delay | pos | dir | angle | compass | paint | feel => rfl

/-- A command does not look at the flag and the jobs, and leaves them as they are. -/
theorem order_withCells (e : Engine Float32) (text : String) (running : Bool)
    (jobs : List (Job Float32)) :
    (e.withCells running jobs).order text =
      (e.order text).map id (·.withCells running jobs) := by
  have verbs : (e.withCells running jobs).verbs = e.verbs := rfl
  simp only [order, verbs]
  cases Command.ofText e.verbs text with
  | error fault => rfl
  | ok command =>
    simp only [perform_withCells]
    rfl

end Engine

namespace Crew

/-- The crew stands for the engine `e`, whose flag and jobs are the crew's. -/
def Shows (c : Crew (Engine Float32)) (e : Engine Float32) : Prop :=
  ∃ jobs, c.Rests jobs ∧ e = c.place.withCells c.running jobs

theorem shows_ofEngine (e : Engine Float32) : (ofEngine e e).Shows e :=
  ⟨e.background, ofEngine_rests e e, rfl⟩

variable {c : Crew (Engine Float32)} {e : Engine Float32}

theorem Shows.round (shows : c.Shows e) : ∃ c', Works Engine.ground c c' ∧ c'.Shows e.round := by
  obtain ⟨jobs, rests, rfl⟩ := shows
  obtain ⟨c', works, running, rests, place⟩ := rests.round Engine.ground_carries
  refine ⟨c', works, _, rests, ?_⟩
  rw [place, running]
  rfl

theorem Shows.stop (shows : c.Shows e) :
    ∃ c', c.step Engine.ground .stop = some c' ∧ c'.Shows e.stop := by
  obtain ⟨jobs, rests, rfl⟩ := shows
  exact ⟨_, rfl, jobs, rests, rfl⟩

theorem Shows.resume (shows : c.Shows e) :
    ∃ c', c.step Engine.ground .resume = some c' ∧ c'.Shows e.resume := by
  obtain ⟨jobs, rests, rfl⟩ := shows
  exact ⟨_, rfl, jobs, rests, rfl⟩

theorem Shows.execute (shows : c.Shows e) (text : String) :
    ∃ between c', c.step Engine.ground (.command text true) = some between ∧
      Works Engine.ground between c' ∧ c'.Shows (e.execute text).2 := by
  obtain ⟨jobs, rests, rfl⟩ := shows
  rw [Engine.execute, Engine.order_withCells]
  rcases ordered : c.place.order text with ⟨answer, place⟩
  have ground : Engine.ground.order text c.place = (answer, place) := ordered
  have moved : ({ c with place := place } : Crew (Engine Float32)).Rests jobs := rests
  have unlaunched : Crew.Shows { c with place := place } (place.withCells c.running jobs) :=
    ⟨jobs, moved, rfl⟩
  cases answer with
  | error fault => exact ⟨_, _, by rw [Crew.step, ground], .refl, unlaunched⟩
  | ok errand =>
    cases errand with
    | nothing | drive => exact ⟨_, _, by rw [Crew.step, ground], .refl, unlaunched⟩
    | launch job =>
      obtain ⟨c', works, running, rests, placed⟩ := moved.launch Engine.ground_carries job
      refine ⟨_, c', by rw [Crew.step, ground]; rfl, works, _, rests, ?_⟩
      rw [placed, running]
      rfl

end Crew

/-- What its users and its rounds do to an engine. -/
inductive Engine.Step : Engine Float32 → Engine Float32 → Prop
  | execute {e} (text : String) : Step e (e.execute text).2
  | stop {e} : Step e e.stop
  | resume {e} : Step e e.resume
  | round {e} : Step e e.round

theorem Crew.Shows.step {c : Crew (Engine Float32)} {e e' : Engine Float32} (shows : c.Shows e)
    (step : e.Step e') : ∃ acts c', c.run Engine.ground acts = some c' ∧ c'.Shows e' := by
  cases step with
  | execute text =>
    obtain ⟨between, c', ordered, works, shows'⟩ := shows.execute text
    obtain ⟨acts, ran⟩ := works.run
    exact ⟨_ :: acts, c', by rw [Crew.run, ordered]; exact ran, shows'⟩
  | stop =>
    obtain ⟨c', stopped, shows'⟩ := shows.stop
    exact ⟨[.stop], c', by rw [Crew.run, stopped]; rfl, shows'⟩
  | resume =>
    obtain ⟨c', resumed, shows'⟩ := shows.resume
    exact ⟨[.resume], c', by rw [Crew.run, resumed]; rfl, shows'⟩
  | round =>
    obtain ⟨c', works, shows'⟩ := shows.round
    obtain ⟨acts, ran⟩ := works.run
    exact ⟨acts, c', ran, shows'⟩

/-- Every history of an engine is one of the interleavings of its users and its workers. -/
theorem Engine.history_interleaves {e e' : Engine Float32}
    (history : Relation.ReflTransGen Engine.Step e e') :
    ∃ acts c, (Crew.ofEngine e e).run Engine.ground acts = some c ∧ c.Shows e' := by
  induction history with
  | refl => exact ⟨[], _, rfl, Crew.shows_ofEngine e⟩
  | tail _ step ih =>
    obtain ⟨before, c, reached, shows⟩ := ih
    obtain ⟨after, c', ran, shows'⟩ := shows.step step
    refine ⟨before ++ after, c', ?_, shows'⟩
    rw [Crew.run_append, reached]
    exact ran

end RobotScript
