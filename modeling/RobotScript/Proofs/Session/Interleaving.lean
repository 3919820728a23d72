import RobotScript.Proofs.Engine.Workers
import RobotScript.Session.Threads

/-!
# Steps of the threads of a session

What a step of the script can do, said once. Most of its steps change nothing but the script and the
place; the others change one shared cell each.
-/

namespace RobotScript

variable {σ : Type} {scene : Scene σ} {body : List Stmt}

/-- The steps of a script that change no shared cell. The flags are those found at the step. -/
inductive Script.Moves (body : List Stmt) (running movers : Bool) : Script → Script → Prop
  | enter : Moves body running movers .entering (.looking [.new .block body])
  | finish (set : running = true) : Moves body running movers (.looking []) (.returned .endOfScript)
  | stop {frames} (cleared : running = false) :
    Moves body running movers (.looking frames) (.returned .stopped)
  | pass {f frames} (set : running = true) :
    Moves body running movers (.looking (f :: frames)) (.arriving f frames)
  | arrive {f frames} : Moves body running movers (.arriving f frames) (.acting f frames)
  | act {f frames frames'} : Moves body running movers (.acting f frames) (.looking frames')
  | hand {f frames job frames'} :
    Moves body running movers (.acting f frames) (.driving (.looking job) frames')
  | send {f frames job frames'} :
    Moves body running movers (.acting f frames) (.counting job frames')
  | refuse {i frames} : Moves body running movers (.starting i frames) (.releasing i frames)
  | drive {p p' frames} (advances : p.Advances movers p') :
    Moves body running movers (.driving p frames) (.driving p' frames)
  | driven {job frames} :
    Moves body running movers (.driving (.finishing job) frames) (.looking frames)
  | leave {outcome} : Moves body running movers (.returned outcome) (.lowering outcome)

namespace Script.Moves

variable {running movers : Bool}

theorem look_nil :
    Moves body running movers (.looking [])
      (.returned (if running then .endOfScript else .stopped)) := by
  cases running with
  | true => exact .finish rfl
  | false => exact .stop rfl

theorem look_cons {f : Frame} {frames : List Frame} :
    Moves body running movers (.looking (f :: frames))
      (if running then .arriving f frames else .returned .stopped) := by
  cases running with
  | true => exact .pass rfl
  | false => exact .stop rfl

theorem afterStep {f : Frame} {frames frames' : List Frame} {errand : Errand Float32} :
    Moves body running movers (.acting f frames) (.afterStep frames' errand) := by
  cases errand with
  | nothing => exact .act
  | drive job => exact .hand
  | launch job => exact .send

end Script.Moves

namespace World

/-- The steps of the script of a world. -/
inductive ScriptStep (body : List Stmt) (w : World σ) : World σ → Prop
  | move {script place} (moves : w.script.Moves body w.running w.crew.running script) :
    ScriptStep body w { w.withPlace place with script := script }
  | register {job frames} (counting : w.script = .counting job frames) :
    ScriptStep body w
      { w with crew := w.crew.register job, script := .starting w.crew.workers.length frames }
  | start {i frames} (starting : w.script = .starting i frames) :
    ScriptStep body w { w with crew := w.crew.start i, script := .looking frames }
  | release {i frames} (releasing : w.script = .releasing i frames) :
    ScriptStep body w { w with crew := w.crew.release i, script := .looking frames }
  | lower {outcome} (lowering : w.script = .lowering outcome) :
    ScriptStep body w { w with running := false, script := .signing outcome }
  | sign {outcome} (signing : w.script = .signing outcome) :
    ScriptStep body w { w with terminated := true, script := .ended outcome }

theorem ScriptStep.of_moves {w w' : World σ} {script : Script} (place : σ)
    (moves : w.script.Moves body w.running w.crew.running script)
    (eq : some { w.withPlace place with script := script } = some w') : ScriptStep body w w' := by
  cases eq
  exact .move moves

theorem stepScript_cases {w w' : World σ} {starts : Bool}
    (step : w.stepScript scene body starts = some w') : ScriptStep body w w' := by
  unfold stepScript at step
  cases here : w.script with
  | unborn | ended => rw [here] at step; cases step
  | entering => rw [here] at step; exact .of_moves _ (here ▸ .enter) step
  | looking frames =>
    cases frames with
    | nil => rw [here] at step; exact .of_moves w.crew.place (here ▸ .look_nil) step
    | cons f frames => rw [here] at step; exact .of_moves w.crew.place (here ▸ .look_cons) step
  | arriving f frames => rw [here] at step; exact .of_moves _ (here ▸ .arrive) step
  | acting f frames => rw [here] at step; exact .of_moves _ (here ▸ .afterStep) step
  | counting job frames =>
    rw [here] at step
    cases step
    exact .register here
  | starting i frames =>
    rw [here] at step
    cases starts with
    | true =>
      cases step
      exact .start here
    | false => exact .of_moves w.crew.place (here ▸ .refuse) step
  | releasing i frames =>
    rw [here] at step
    cases step
    exact .release here
  | driving p frames =>
    rw [here] at step
    rcases advanced : p.advance scene.toGround w.crew.running w.crew.place with ⟨next, place⟩
    simp only [advanced] at step
    obtain ⟨p', rfl, advances⟩ | ⟨job, rfl, rfl⟩ := Progress.advance_cases advanced
    · exact .of_moves place (here ▸ .drive advances) step
    · exact .of_moves place (here ▸ .driven) step
  | returned outcome => rw [here] at step; exact .of_moves _ (here ▸ .leave) step
  | lowering outcome =>
    rw [here] at step
    cases step
    exact .lower here
  | signing outcome =>
    rw [here] at step
    cases step
    exact .sign here

theorem stepSpawner_calls {w w' : World σ} {starts : Bool}
    (step : w.stepSpawner starts = some w') : w'.calls = w.calls := by
  unfold stepSpawner at step
  split at step
  case h_4 => cases starts <;> cases step <;> rfl
  all_goals cases step <;> rfl

theorem stepSpawner_crew {w w' : World σ} {starts : Bool}
    (step : w.stepSpawner starts = some w') :
    w'.crew.place = w.crew.place ∧ w'.crew.workers = w.crew.workers := by
  unfold stepSpawner at step
  split at step
  case h_4 => cases starts <;> cases step <;> exact ⟨rfl, rfl⟩
  all_goals cases step <;> exact ⟨rfl, rfl⟩

/-! ### Calls -/

/-- The steps of a call: a store of each flag, then looks. -/
inductive CallStep (w : World σ) : Call.Phase → World σ → Call.Phase → Prop
  | clear : CallStep w .clearing { w with running := false } .cancelling
  | cancel : CallStep w .cancelling { w with crew := { w.crew with running := false } } .silencing
  | silence {place} : CallStep w .silencing (w.withPlace place) .polling
  | signed (signed : w.terminated = true) : CallStep w .polling w .tallying
  | unsigned : CallStep w .polling w .waiting
  | none (none : w.crew.count = 0) : CallStep w .tallying w (.answered true)
  | some : CallStep w .tallying w .waiting
  | again : CallStep w .waiting w .polling
  | expire : CallStep w .waiting w (.answered false)

theorem stepCall_cases {w w' : World σ} {expired : Bool} {phase phase' : Call.Phase}
    (step : w.stepCall scene expired phase = some (w', phase')) : CallStep w phase w' phase' := by
  cases phase with
  | clearing => cases step; exact .clear
  | cancelling => cases step; exact .cancel
  | silencing => cases step; exact .silence
  | polling =>
    rw [stepCall] at step
    split at step
    · rename_i signed
      cases step
      exact .signed signed
    · cases step
      exact .unsigned
  | tallying =>
    rw [stepCall] at step
    split at step
    · rename_i none
      cases step
      exact .none none
    · cases step
      exact .some
  | waiting => cases expired <;> cases step <;> constructor
  | answered => cases step

theorem stepCaller_cases {w w' : World σ} {i : Nat} {expired : Bool}
    (step : w.stepCaller scene i expired = some w') :
    ∃ call between phase, w.calls[i]? = some call ∧ CallStep w call.phase between phase ∧
      w' = { between with calls := between.calls.set i { call with phase := phase } } := by
  obtain ⟨call, found, step⟩ := Option.bind_eq_some_iff.1 step
  obtain ⟨⟨between, phase⟩, called, rfl⟩ := Option.map_eq_some_iff.1 step
  exact ⟨call, between, phase, found, stepCall_cases called, rfl⟩

/-! ### Runs -/

/-- What every step keeps, every run keeps. -/
theorem run_keeps {P : World σ → Prop}
    (keeps : ∀ w act w', P w → w.step scene body act = some w' → P w') {acts : List (Act σ)}
    {w w' : World σ} (holds : P w) (ran : w.run scene body acts = some w') : P w' := by
  induction acts generalizing w with
  | nil =>
    cases ran
    exact holds
  | cons act acts ih =>
    obtain ⟨between, step, ran⟩ := Option.bind_eq_some_iff.1 ran
    exact ih (keeps w act between holds step) ran

theorem run_append {before after : List (Act σ)} {w : World σ} :
    w.run scene body (before ++ after) =
      (w.run scene body before).bind (run scene body after) := by
  induction before generalizing w with
  | nil => rfl
  | cons act before ih =>
    rw [List.cons_append, run, run, Option.bind_assoc]
    congr 1
    funext between
    exact ih

end World

end RobotScript
