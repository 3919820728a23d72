import RobotScript.Proofs.Engine.Cancelling
import RobotScript.Proofs.Session.Wheels

/-!
# When the wheels stand still

Every motion stops the wheels when it ends, and the last write counts. So the wheels are at rest
once all motions have ended (`World.wheels_come_to_rest`), but they are also at rest under a motion
that goes on when another one has ended meanwhile (`World.at_rest_iff_halted_by_other`).
-/

namespace RobotScript

namespace World

variable {vars : Variables} {body : List Stmt} {w w' : World (Session × Source)}
  {act : Act (Session × Source)} {acts : List (Act (Session × Source))}

/-- Nobody but the session writes the wheels in the course of the acts. -/
def Undisturbed (vars : Variables) (body : List Stmt) :
    List (Act (Session × Source)) → World (Session × Source) → Prop
  | [], _ => True
  | act :: acts, w =>
    w.Spares act ∧
      ∀ w', w.step (Session.scene vars) body act = some w' → Undisturbed vars body acts w'

theorem undisturbed_of_alone (alone : ∀ act ∈ acts, ∀ place, act ≠ .disturb place) :
    w.Undisturbed vars body acts := by
  induction acts generalizing w with
  | nil => trivial
  | cons act acts ih =>
    obtain ⟨first, alone⟩ := List.forall_mem_cons.1 alone
    refine ⟨?_, fun _ _ => ih alone⟩
    cases act with
    | disturb place => exact absurd rfl (first place)
    | _ => trivial

/-! ### The end of all motions -/

section
variable {σ : Type} {scene : Scene σ} {w w' : World σ} {act : Act σ}

theorem stepScript_granted (step : w.stepScript scene body true = some w') :
    w'.script.isReleasing = false := by
  cases stepScript_cases step with
  | move moves =>
    generalize here : w.script = script at moves
    cases moves with
    | refuse =>
      rw [stepScript, here] at step
      cases congrArg World.script (Option.some.inj step)
    | _ => rfl
  | register | start | release | lower | sign => rfl

/-- A worker is released without having been started only if its thread is refused. -/
theorem step_granted (unreleased : w.script.isReleasing = false) (granted : act ≠ .script false)
    (step : w.step scene body act = some w') : w'.script.isReleasing = false := by
  cases kind : act.isScript with
  | true =>
    cases act with
    | script starts =>
      cases starts with
      | true => exact stepScript_granted step
      | false => exact absurd rfl granted
    | _ => cases kind
  | false =>
    obtain same | ⟨-, entering⟩ := step_other kind step
    · rw [same]
      exact unreleased
    · rw [entering]
      rfl

end

/-- The wheels are at rest unless a timed motion is under way, and no thread has been refused. -/
structure Settled (w : World (Session × Source)) : Prop where
  sound : w.Sound
  granted : w.script.isReleasing = false
  rests : Wheel.atRest w.wheels = true ∨ w.inMotion = true

theorem Settled.step (settled : w.Settled) (spares : w.Spares act) (granted : act ≠ .script false)
    (step : w.step (Session.scene vars) body act = some w') : w'.Settled := by
  refine ⟨settled.sound.step step, step_granted settled.granted granted step, ?_⟩
  have steers := step_steers spares step
  -- only a start can set the wheels turning, and then its motion is under way
  generalize w.change? vars act = change? at steers
  cases steers with
  | coast wheels motion =>
    rw [wheels, motion settled.sound settled.granted]
    exact settled.rests
  | start motion => exact .inr motion
  | halt worker? still =>
    rw [still]
    exact .inl rfl

theorem Settled.run (settled : w.Settled) (undisturbed : w.Undisturbed vars body acts)
    (granted : .script false ∉ acts)
    (ran : w.run (Session.scene vars) body acts = some w') : w'.Settled := by
  induction acts generalizing w with
  | nil =>
    cases ran
    exact settled
  | cons act acts ih =>
    obtain ⟨between, step, ran⟩ := Option.bind_eq_some_iff.1 ran
    obtain ⟨spares, undisturbed⟩ := undisturbed
    have settled' := settled.step spares (fun refused => granted (refused ▸ .head _)) step
    exact ih settled' (undisturbed between step) (fun later => granted (.tail _ later)) ran

theorem not_inMotion {outcome : Termination} (sound : w.Sound) (ended : w.script = .ended outcome)
    (none : w.crew.count = 0) : w.inMotion = false := by
  have gone := Crew.live_eq_zero.1 (sound.tallied ▸ none)
  have idle : w.crew.workers.any Worker.inMotion = false := by
    rw [List.any_eq_false]
    intro worker member
    rw [gone worker member]
    decide
  rw [inMotion, idle, ended]
  rfl

/-- Whatever the script has started, in whatever order the motions end or are stopped: once the
script has ended and no worker is left, the wheels are at rest. -/
theorem wheels_come_to_rest {w₀ : World (Session × Source)} {outcome : Termination}
    (resting : w₀.Resting)
    (still : Wheel.atRest w₀.wheels = true ∨ w₀.crew.workers.any Worker.inMotion = true)
    (undisturbed : w₀.Undisturbed vars body acts) (granted : .script false ∉ acts)
    (ran : w₀.run (Session.scene vars) body acts = some w)
    (ended : w.script = .ended outcome) (none : w.crew.count = 0) :
    Wheel.atRest w.wheels = true := by
  have unborn : w₀.script = .unborn := resting.2.1
  have settled : w₀.Settled := by
    refine ⟨resting.sound, by rw [unborn]; rfl, still.imp_right fun moving => ?_⟩
    rw [inMotion, moving, Bool.or_true]
  obtain ⟨sound, -, rests⟩ := settled.run undisturbed granted ran
  exact rests.resolve_right (by rw [not_inMotion sound ended none]; decide)

end World

/-- A session about to be spawned, with the wheels of its robot at rest. -/
def World.parked : World (Session × Source) := Run.idle.session.world (.ofLines [])

/-- A motion in the background and another one in the foreground. -/
def Stmt.overlapping : List Stmt :=
  [.command 1 "MOVE 10 INTIME 1 BACKGROUND", .command 2 "TURN 90 INTIME 1"]

/-- Both motions are under way when the session is asked to stop. -/
def Act.stopMidway : List (Act (Session × Source)) :=
  List.replicate 5 (.spawner true) ++ List.replicate 6 (.script true) ++ [.worker 0, .worker 0] ++
    List.replicate 5 (.script true) ++
    [.call, .caller 0 false, .caller 0 false, .worker 0, .caller 0 false, .worker 0] ++
    List.replicate 6 (.script true) ++ [.worker 0]

theorem wheels_come_to_rest_midway :
    ∃ w outcome, World.parked.run (Session.scene []) Stmt.overlapping Act.stopMidway = some w ∧
      w.script = .ended outcome ∧ w.crew.count = 0 ∧ Wheel.atRest w.wheels = true := by
  have resting : World.parked.Resting := Session.world_resting _ _
  have final : (World.parked.run (Session.scene []) Stmt.overlapping Act.stopMidway).any
      (fun w => w.terminated && w.spawner == .returned && w.crew.count == 0) = true := by
    decide +kernel
  obtain ⟨w, ran, final⟩ := Option.any_eq_true _ _ |>.1 final
  simp only [Bool.and_eq_true, beq_iff_eq] at final
  obtain ⟨⟨signed, returned⟩, none⟩ := final
  have sound : w.Sound := World.run_keeps (fun _ _ _ => World.Sound.step) resting.sound ran
  obtain ⟨outcome, ended⟩ := (sound.signed signed).resolve_left (by simp [returned])
  have undisturbed : World.parked.Undisturbed [] Stmt.overlapping Act.stopMidway :=
    World.undisturbed_of_alone (by simp [Act.stopMidway])
  exact ⟨w, outcome, ran, ended, none, World.wheels_come_to_rest resting (.inl rfl) undisturbed
    (by simp [Act.stopMidway]) ran ended none⟩

/-! ### Motions that overlap -/

namespace World

section
variable {σ : Type} {scene : Scene σ} {body : List Stmt} {w w' : World σ} {act : Act σ} {i j : Nat}

/-- The worker of that number has no tick to run any more. -/
def Done (w : World σ) (i : Nat) : Prop :=
  ∃ worker, w.crew.workers[i]? = some worker ∧ worker.isDone = true

theorem Done.of_set {worker : Worker} (done : w.Done i)
    (workers : w'.crew.workers = w.crew.workers.set j worker)
    (same : j = i → worker.isDone = true) : w'.Done i := by
  obtain ⟨old, found, done⟩ := done
  by_cases here : j = i
  · subst here
    refine ⟨worker, ?_, same rfl⟩
    rw [workers, List.getElem?_set_self (List.getElem?_eq_some_iff.1 found).1]
  · exact ⟨old, by rw [workers, List.getElem?_set_ne here, found], done⟩

theorem Done.of_workers_eq (done : w.Done i) (workers : w'.crew.workers = w.crew.workers) :
    w'.Done i := by
  obtain ⟨worker, found, done⟩ := done
  exact ⟨worker, workers ▸ found, done⟩

theorem Done.stepScript {starts : Bool} (done : w.Done i)
    (step : w.stepScript scene body starts = some w') : w'.Done i := by
  cases stepScript_cases step with
  | move | lower | sign => exact done.of_workers_eq rfl
  | register =>
    obtain ⟨worker, found, done⟩ := done
    have inside := (List.getElem?_eq_some_iff.1 found).1
    exact ⟨worker, (List.getElem?_append_left inside).trans found, done⟩
  | @start j frames =>
    cases counted : w.crew.workers[j]? with
    | some worker =>
      cases worker with
      | counted job =>
        refine done.of_set (congrArg Crew.workers (Crew.start_eq counted)) ?_
        -- a worker that has only been counted is not done
        rintro rfl
        obtain ⟨old, found, done⟩ := done
        rw [counted] at found
        cases found
        cases done
      | _ => exact done.of_workers_eq (by simp only [Crew.start, counted])
    | none => exact done.of_workers_eq (by simp only [Crew.start, counted])
  | release => exact done.of_set rfl fun _ => rfl

theorem Done.step (done : w.Done i) (step : w.step scene body act = some w') : w'.Done i := by
  cases act with
  | script starts => exact done.stepScript step
  | worker j =>
    obtain ⟨crew, advanced, rfl⟩ := Option.map_eq_some_iff.1 step
    obtain ⟨worker, worker', found, advances, workers, -⟩ := Crew.advance_cases advanced
    refine done.of_set workers ?_
    rintro rfl
    obtain ⟨old, found', done⟩ := done
    rw [found] at found'
    cases found'
    exact advances.isDone done
  | spawner starts => exact done.of_workers_eq (stepSpawner_crew step).2
  | caller j expired =>
    obtain ⟨call, between, phase, -, called, rfl⟩ := stepCaller_cases step
    exact done.of_workers_eq called.kept.2.2.1
  | call | disturb =>
    cases step
    exact done.of_workers_eq rfl

end

variable {vars : Variables} {body : List Stmt} {w w' : World (Session × Source)}
  {act : Act (Session × Source)} {acts : List (Act (Session × Source))} {i : Nat}

theorem done_of_halt (halts : w.change? vars act = some (.halt (some i))) : w.Done i := by
  cases act with
  | worker j =>
    rw [change?, workerChange?] at halts
    split at halts
    · rename_i p found
      split at halts
      · rename_i ends
        cases halts
        refine ⟨_, found, ?_⟩
        cases p with
        | finishing job => rfl
        | looking | ticking => cases ends
      · cases halts
    · cases halts
  | script starts =>
    rw [change?, scriptChange?] at halts
    split at halts
    · dsimp only at halts
      split at halts <;> cases halts
    · split at halts <;> cases halts
    · cases halts
  | _ => cases halts

/-- The changes of the wheels in the course of the acts. -/
def changes (vars : Variables) (body : List Stmt) :
    List (Act (Session × Source)) → World (Session × Source) → List Wheel.Change
  | [], _ => []
  | act :: acts, w =>
    (w.change? vars act).toList ++
      (w.step (Session.scene vars) body act).elim [] (changes vars body acts)

theorem run_wheels (undisturbed : w.Undisturbed vars body acts)
    (ran : w.run (Session.scene vars) body acts = some w') :
    w'.wheels = (w.changes vars body acts).getLast?.elim w.wheels Wheel.Change.speeds := by
  induction acts generalizing w with
  | nil =>
    cases ran
    rfl
  | cons act acts ih =>
    obtain ⟨between, step, ran⟩ := Option.bind_eq_some_iff.1 ran
    obtain ⟨spares, undisturbed⟩ := undisturbed
    rw [ih (undisturbed between step) ran, (step_steers spares step).wheels_eq, changes, step,
      Option.elim_some, List.getLast?_append]
    cases (changes vars body acts between).getLast? with
    | some change => rfl
    | none => cases w.change? vars act <;> rfl

theorem halt_not_mem_changes (ran : w.run (Session.scene vars) body acts = some w')
    (busy : ¬w'.Done i) : .halt (some i) ∉ w.changes vars body acts := by
  induction acts generalizing w with
  | nil => exact List.not_mem_nil
  | cons act acts ih =>
    obtain ⟨between, step, onward⟩ := Option.bind_eq_some_iff.1 ran
    rw [changes, step, List.mem_append, Option.mem_toList]
    rintro (halts | later)
    · -- a worker about to stop the wheels is past its last look
      have done : w.Done i := done_of_halt halts
      exact busy (run_keeps (fun _ _ _ => Done.step) done ran)
    · exact ih onward later

/-- While a worker has ticks to run, the wheels are at rest exactly if the last motion to start or
to end since they turned is another one that has ended, or was started without speed. -/
theorem at_rest_iff_halted_by_other (turning : Wheel.atRest w.wheels = false)
    (undisturbed : w.Undisturbed vars body acts)
    (ran : w.run (Session.scene vars) body acts = some w') {worker : Worker}
    (found : w'.crew.workers[i]? = some worker) (busy : worker.isDone = false) :
    Wheel.atRest w'.wheels = true ↔ ∃ change ≠ Wheel.Change.halt (some i),
      (w.changes vars body acts).getLast? = some change ∧ Wheel.atRest change.speeds = true := by
  have notDone : ¬w'.Done i := by
    rintro ⟨other, found', done⟩
    rw [found] at found'
    cases found'
    rw [busy] at done
    cases done
  have others := halt_not_mem_changes ran notDone
  rw [run_wheels undisturbed ran]
  cases last : (w.changes vars body acts).getLast? with
  | none => simp [turning]
  | some change =>
    have member := List.mem_of_getLast? last
    constructor
    · intro rests
      exact ⟨change, fun own => others (own ▸ member), rfl, rests⟩
    · rintro ⟨_, -, ⟨⟩, rests⟩
      exact rests

end World

/-- The motion in the background has been started and the one in the foreground runs to its end,
while the worker is not given a turn. -/
theorem at_rest_iff_halted_by_other_overlapping :
    ∃ w w' worker,
      World.parked.run (Session.scene []) Stmt.overlapping
        (List.replicate 5 (.spawner true) ++ List.replicate 4 (.script true)) = some w ∧
      Wheel.atRest w.wheels = false ∧
      w.run (Session.scene []) Stmt.overlapping (List.replicate 17 (.script true)) = some w' ∧
      w'.crew.workers[0]? = some worker ∧ worker.isDone = false ∧
      ∃ change ≠ .halt (some 0),
        (w.changes [] Stmt.overlapping (List.replicate 17 (.script true))).getLast? = some change ∧
        Wheel.atRest change.speeds = true := by
  have final : (World.parked.run (Session.scene []) Stmt.overlapping
      (List.replicate 5 (.spawner true) ++ List.replicate 4 (.script true))).any (fun w =>
        !Wheel.atRest w.wheels &&
        (w.run (Session.scene []) Stmt.overlapping (List.replicate 17 (.script true))).any fun w' =>
          Wheel.atRest w'.wheels && w'.crew.workers[0]?.any (!·.isDone)) = true := by
    decide +kernel
  simp only [Option.any_eq_true, Bool.and_eq_true, Bool.not_eq_true'] at final
  obtain ⟨w, started, turning, w', ran, rests, worker, found, busy⟩ := final
  have undisturbed : w.Undisturbed [] Stmt.overlapping (List.replicate 17 (.script true)) :=
    World.undisturbed_of_alone (by simp)
  have halted := (World.at_rest_iff_halted_by_other turning undisturbed ran found busy).1 rests
  exact ⟨w, w', worker, started, turning, ran, found, busy, halted⟩

/-- A short move that ends stops the wheels under a longer one that goes on. -/
theorem overlap_stops_wheels :
    ∃ first second : Engine Float32,
      Run.idle.session.engine.apply (.move 100.0 (some ⟨10, true⟩)) = (.ok .finished, first) ∧
      first.apply (.move 10.0 (some ⟨1, true⟩)) = (.ok .finished, second) ∧
      Wheel.atRest first.robot.motion.wheels = false ∧
      (second.rounds 5).running = true ∧
      (second.rounds 5).background.map (fun job => (job.label, job.ticks)) = [("MOVE", 44)] ∧
      Wheel.atRest (second.rounds 5).robot.motion.wheels = true :=
  ⟨_, _, rfl, rfl, by decide +kernel, by decide +kernel, by decide +kernel, by decide +kernel⟩

end RobotScript
