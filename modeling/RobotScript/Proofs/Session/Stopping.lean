import RobotScript.Proofs.Session.Acknowledgement

/-!
# Stops are not lost

Once a call made after the spawn has cleared the flag, nobody sets it again. What the script does
from then on it was already past the look for, and unless that look was its last one it ends as
stopped.
-/

namespace RobotScript

variable {σ : Type} {scene : Scene σ} {body : List Stmt}

def Act.isScript : Act σ → Bool
  | .script _ => true
  | _ => false

/-- What a walk has returned, from its last look on. -/
def Script.outcome? : Script → Option Termination
  | .returned outcome | .lowering outcome | .signing outcome | .ended outcome => some outcome
  | _ => none

namespace Script.Moves

variable {running movers : Bool} {script script' : Script}

theorem outcome?_cases (moves : script.Moves body running movers script') :
    script'.outcome? = script.outcome? ∨ ∃ frames, script = .looking frames ∧
      (running = false ∧ script'.outcome? = some .stopped ∨
        running = true ∧ frames = [] ∧ script'.outcome? = some .endOfScript) := by
  cases moves with
  | finish set => exact .inr ⟨_, rfl, .inr ⟨set, rfl, rfl⟩⟩
  | stop cleared => exact .inr ⟨_, rfl, .inl ⟨cleared, rfl⟩⟩
  | _ => exact .inl rfl

theorem ne_arriving (moves : script.Moves body false movers script') (f : Frame)
    (frames : List Frame) : script' ≠ .arriving f frames := by
  cases moves with
  | pass set => cases set
  | _ => nofun

theorem ne_ticking (moves : script.Moves body running false script') (job : Job Float32)
    (frames : List Frame) : script' ≠ .driving (.ticking job) frames := by
  cases moves with
  | drive advances =>
    cases advances with
    | passed some set => cases set
    | _ => nofun
  | _ => nofun

end Script.Moves

namespace World

/-! ### The flags -/

theorem ScriptStep.flags {w w' : World σ} (step : ScriptStep body w w') :
    (w.running = false → w'.running = false) ∧ w'.crew.running = w.crew.running := by
  cases step with
  | lower => exact ⟨fun _ => rfl, rfl⟩
  | start => exact ⟨id, Crew.start_running _ _⟩
  | move | register | release | sign => exact ⟨id, rfl⟩

theorem CallStep.flags {w w' : World σ} {phase phase' : Call.Phase}
    (step : CallStep w phase w' phase') :
    (w.running = false → w'.running = false) ∧
      (w.crew.running = false → w'.crew.running = false) := by
  cases step with
  | clear => exact ⟨fun _ => rfl, id⟩
  | cancel => exact ⟨id, fun _ => rfl⟩
  | _ => exact ⟨id, id⟩

/-- Nobody sets a flag any more once the spawn has returned. -/
theorem step_flags {w w' : World σ} {act : Act σ} (returned : w.spawner = .returned)
    (step : w.step scene body act = some w') :
    w'.spawner = .returned ∧ (w.running = false → w'.running = false) ∧
      (w.crew.running = false → w'.crew.running = false) := by
  cases act with
  | spawner starts =>
    change w.stepSpawner starts = some w' at step
    rw [stepSpawner, returned] at step
    cases step
  | script starts =>
    have scripted := stepScript_cases step
    obtain ⟨running, movers⟩ := scripted.flags
    exact ⟨scripted.kept.1.trans returned, running, movers.trans⟩
  | worker i =>
    obtain ⟨crew, advanced, rfl⟩ := Option.map_eq_some_iff.1 step
    obtain ⟨_, _, _, _, _, movers, _⟩ := Crew.advance_cases advanced
    exact ⟨returned, id, movers.trans⟩
  | caller i expired =>
    obtain ⟨call, between, phase, found, called, rfl⟩ := stepCaller_cases step
    exact ⟨called.kept.1.trans returned, called.flags⟩
  | call | disturb =>
    cases step
    exact ⟨returned, id, id⟩

/-- What the stores of the calls have led to. -/
def Heeds (w : World σ) (call : Call) : Prop :=
  w.spawner = .returned ∧ (call.phase ≠ .clearing → w.running = false) ∧
    (call.phase ≠ .clearing → call.phase ≠ .cancelling → w.crew.running = false)

theorem CallStep.heeds {w w' : World σ} {call : Call} {phase : Call.Phase} (heeds : w.Heeds call)
    (step : CallStep w call.phase w' phase) : w'.Heeds { call with phase := phase } := by
  obtain ⟨returned, cleared, cancelled⟩ := heeds
  rcases call with ⟨late, old⟩
  cases step with
  | clear => exact ⟨returned, fun _ => rfl, fun _ waiting => absurd rfl waiting⟩
  | cancel => exact ⟨returned, fun _ => cleared nofun, fun _ _ => rfl⟩
  | _ => exact ⟨returned, fun _ => cleared nofun, fun _ _ => cancelled nofun nofun⟩

theorem step_heeds {w w' : World σ} {act : Act σ}
    (heeds : ∀ call ∈ w.calls, call.late = true → w.Heeds call)
    (step : w.step scene body act = some w') :
    ∀ call ∈ w'.calls, call.late = true → w'.Heeds call := by
  have kept {call : Call} (old : w.Heeds call) : w'.Heeds call := by
    obtain ⟨returned, cleared, cancelled⟩ := old
    obtain ⟨returned', running, movers⟩ := step_flags returned step
    exact ⟨returned', fun past => running (cleared past), fun past past' =>
      movers (cancelled past past')⟩
  have unchanged (same : w'.calls = w.calls) (call : Call) (member : call ∈ w'.calls)
      (late : call.late = true) : w'.Heeds call := kept (heeds call (same ▸ member) late)
  cases act with
  | spawner starts => exact unchanged (stepSpawner_calls step)
  | script starts => exact unchanged (stepScript_cases step).kept.2
  | worker i =>
    obtain ⟨crew, -, rfl⟩ := Option.map_eq_some_iff.1 step
    exact unchanged rfl
  | call =>
    cases step
    intro call member late
    obtain member | rfl := List.mem_append.1 member |>.imp_right List.mem_singleton.1
    · exact kept (heeds call member late)
    · exact ⟨of_decide_eq_true late, absurd rfl, absurd rfl⟩
  | caller i expired =>
    obtain ⟨call, between, phase, found, called, rfl⟩ := stepCaller_cases step
    intro other member late
    rw [called.kept.2.2.2] at member
    obtain member | rfl := List.mem_or_eq_of_mem_set member
    · exact kept (heeds other member late)
    · have heeded := called.heeds (heeds call (List.mem_of_getElem? found) late)
      exact heeded
  | disturb place =>
    cases step
    exact unchanged rfl

/-! ### What the script does -/

theorem ScriptStep.outcome?_cases {w w' : World σ} (step : ScriptStep body w w') :
    w'.script.outcome? = w.script.outcome? ∨ ∃ frames, w.script = .looking frames ∧
      (w.running = false ∧ w'.script.outcome? = some .stopped ∨
        w.running = true ∧ frames = [] ∧ w'.script.outcome? = some .endOfScript) := by
  cases step with
  | move moves => exact moves.outcome?_cases
  | register here | start here | release here | lower here | sign here =>
    rw [here]
    exact .inl rfl

/-- Only the script moves the script, but for its birth. -/
theorem step_other {w w' : World σ} {act : Act σ} (other : act.isScript = false)
    (step : w.step scene body act = some w') :
    w'.script = w.script ∨ w.spawner = .making ∧ w'.script = .entering := by
  cases act with
  | spawner starts =>
    change w.stepSpawner starts = some w' at step
    unfold stepSpawner at step
    cases here : w.spawner with
    | making =>
      rw [here] at step
      cases starts with
      | true =>
        cases step
        exact .inr ⟨rfl, rfl⟩
      | false =>
        cases step
        exact .inl rfl
    | opening | raising | resuming | returning =>
      rw [here] at step
      cases step
      exact .inl rfl
    | returned | refused => rw [here] at step; cases step
  | script starts => cases other
  | worker i =>
    obtain ⟨crew, -, rfl⟩ := Option.map_eq_some_iff.1 step
    exact .inl rfl
  | caller i expired =>
    obtain ⟨call, between, phase, found, called, rfl⟩ := stepCaller_cases step
    exact .inl called.kept.2.1
  | call | disturb =>
    cases step
    exact .inl rfl

theorem script_eq_of_returned {w w' : World σ} {act : Act σ} (returned : w.spawner = .returned)
    (other : act.isScript = false) (step : w.step scene body act = some w') :
    w'.script = w.script :=
  (step_other other step).resolve_right fun ⟨making, _⟩ => by rw [returned] at making; cases making

theorem Sound.outcome?_eq {w w' : World σ} {act : Act σ} (sound : w.Sound)
    (other : act.isScript = false) (step : w.step scene body act = some w') :
    w'.script.outcome? = w.script.outcome? := by
  obtain same | ⟨making, entering⟩ := step_other other step
  · rw [same]
  · rw [entering, sound.unborn (by simp [making]) (by simp [making])]
    rfl

theorem step_isScript {w w' : World σ} {act : Act σ} (script : act.isScript = true)
    (step : w.step scene body act = some w') : ScriptStep body w w' := by
  cases act with
  | script starts => exact stepScript_cases step
  | _ => cases script

/-- Where no step of the script leads, it can only be if it has been there all along. -/
theorem run_unreached {P : World σ → Prop} {target : Script}
    (keeps : ∀ u act u', P u → u.step scene body act = some u' → P u')
    (returned : ∀ u, P u → u.spawner = .returned)
    (misses : ∀ u u', P u → ScriptStep body u u' → u'.script ≠ target) {w w' : World σ}
    {acts : List (Act σ)} (holds : P w) (ran : w.run scene body acts = some w')
    (there : w'.script = target) :
    w.script = target ∧ ∀ act ∈ acts, act.isScript = false := by
  induction acts generalizing w with
  | nil =>
    cases ran
    exact ⟨there, nofun⟩
  | cons act acts ih =>
    obtain ⟨between, step, ran⟩ := Option.bind_eq_some_iff.1 ran
    obtain ⟨here, quiet⟩ := ih (keeps w act between holds step) ran
    cases kind : act.isScript with
    | true => exact absurd here (misses w between holds (step_isScript kind step))
    | false =>
      rw [script_eq_of_returned (returned w holds) kind step] at here
      exact ⟨here, List.forall_mem_cons.2 ⟨kind, quiet⟩⟩

/-! ### After the stores -/

/-- The spawn has returned and the script's flag is cleared. -/
def Cleared (w : World σ) : Prop := w.spawner = .returned ∧ w.running = false

/-- The same for the flag that jobs look at. -/
def Cancelled (w : World σ) : Prop := w.spawner = .returned ∧ w.crew.running = false

theorem Cleared.step {w w' : World σ} {act : Act σ} (cleared : w.Cleared)
    (step : w.step scene body act = some w') : w'.Cleared := by
  obtain ⟨returned, running, -⟩ := step_flags cleared.1 step
  exact ⟨returned, running cleared.2⟩

theorem Cancelled.step {w w' : World σ} {act : Act σ} (cancelled : w.Cancelled)
    (step : w.step scene body act = some w') : w'.Cancelled := by
  obtain ⟨returned, -, movers⟩ := step_flags cancelled.1 step
  exact ⟨returned, movers cancelled.2⟩

theorem Cleared.ne_arriving {w w' : World σ} (cleared : w.Cleared) (step : ScriptStep body w w')
    (f : Frame) (frames : List Frame) : w'.script ≠ .arriving f frames := by
  cases step with
  | move moves =>
    rw [cleared.2] at moves
    exact moves.ne_arriving f frames
  | _ => nofun

theorem Cancelled.ne_ticking {w w' : World σ} (cancelled : w.Cancelled)
    (step : ScriptStep body w w') (job : Job Float32) (frames : List Frame) :
    w'.script ≠ .driving (.ticking job) frames := by
  cases step with
  | move moves =>
    rw [cancelled.2] at moves
    exact moves.ne_ticking job frames
  | _ => nofun

/-- What the script will have returned in the end is settled: what it has, or else that it was
stopped. -/
theorem Cleared.verdict {w w' : World σ} {act : Act σ} (cleared : w.Cleared)
    (step : w.step scene body act = some w') :
    w'.script.outcome?.getD .stopped = w.script.outcome?.getD .stopped := by
  cases kind : act.isScript with
  | false => rw [script_eq_of_returned cleared.1 kind step]
  | true =>
    obtain same | ⟨frames, looking, ⟨-, stopped⟩ | ⟨set, -⟩⟩ :=
      (step_isScript kind step).outcome?_cases
    · rw [same]
    · rw [looking, stopped]
      rfl
    · rw [cleared.2] at set
      cases set

theorem run_verdict {w w' : World σ} {acts : List (Act σ)} (cleared : w.Cleared)
    (ran : w.run scene body acts = some w') :
    w'.script.outcome?.getD .stopped = w.script.outcome?.getD .stopped := by
  refine (run_keeps (P := fun u => u.Cleared ∧
    u.script.outcome?.getD .stopped = w.script.outcome?.getD .stopped) ?_ ⟨cleared, rfl⟩ ran).2
  rintro u act u' ⟨cleared, same⟩ step
  exact ⟨cleared.step step, (cleared.verdict step).trans same⟩

end World

/-! ### How a stopped script comes to its end -/

def Progress.left : Progress → Nat
  | .looking job => 2 * job.ticks + 1
  | .ticking job => 2 * job.ticks + 2
  | .finishing _ => 0

theorem Progress.Advances.left_lt {running : Bool} {p p' : Progress}
    (advances : p.Advances running p') : p'.left < p.left := by
  cases advances with
  | passed some set =>
    simp only [left, some]
    omega
  | exhausted | stopped | ticked =>
    simp only [left]
    omega

/-- The length of an errand is not known before the step that gives it. -/
def Script.stage : Script → Nat
  | .arriving .. => 2
  | .acting .. => 1
  | _ => 0

/-- How many steps a script has left that finds its flag cleared, an errand apart that it has not
been given yet. -/
def Script.left : Script → Nat
  | .counting .. => 7
  | .starting .. => 6
  | .entering | .releasing .. => 5
  | .driving progress _ => 5 + progress.left
  | .looking _ => 4
  | .returned _ => 3
  | .lowering _ => 2
  | .signing _ => 1
  | .unborn | .arriving .. | .acting .. | .ended _ => 0

theorem Script.Moves.left_lt {movers : Bool} {script script' : Script}
    (moves : script.Moves body false movers script') :
    script'.stage < script.stage ∨ script'.stage = script.stage ∧ script'.left < script.left := by
  cases moves with
  | finish set | pass set => cases set
  | arrive => exact .inl (by decide : 1 < 2)
  | act | hand | send => exact .inl (by decide : 0 < 1)
  | drive advances =>
    have := advances.left_lt
    exact .inr ⟨rfl, by simp only [left]; omega⟩
  | _ => exact .inr ⟨rfl, by simp only [left]; omega⟩

namespace World

theorem Cleared.left_lt {w w' : World σ} (cleared : w.Cleared) (step : ScriptStep body w w') :
    w'.script.stage < w.script.stage ∨
      w'.script.stage = w.script.stage ∧ w'.script.left < w.script.left := by
  cases step with
  | move moves =>
    rw [cleared.2] at moves
    exact moves.left_lt
  | register here | start here | release here | lower here | sign here =>
    rw [here]
    exact .inr ⟨rfl, by simp [Script.left]⟩

/-- A script that has been born can always take its next step until it has ended. -/
theorem Sound.goes_on {w : World σ} (sound : w.Sound) (returned : w.spawner = .returned)
    (scene : Scene σ) (body : List Stmt) (starts : Bool) :
    w.Over ∨ (w.stepScript scene body starts).isSome = true := by
  cases here : w.script with
  | unborn => exact absurd here (sound.born.2 (.inr returned))
  | ended outcome => exact .inl ⟨outcome, here⟩
  | looking frames => cases frames <;> exact .inr (by simp [stepScript, here])
  | _ => exact .inr (by simp [stepScript, here])

end World

/-- An unending interleaving. -/
structure Execution (scene : Scene σ) (body : List Stmt) where
  world : Nat → World σ
  act : Nat → Act σ
  steps : ∀ n, (world n).step scene body (act n) = some (world (n + 1))

namespace Execution

variable (e : Execution scene body)

/-- The script is given a turn again and again until it has ended. -/
def Fair : Prop := ∀ n, (e.world n).Over ∨ ∃ m, n ≤ m ∧ (e.act m).isScript = true

variable {e}

/-- Until its next turn the script stays where it is. -/
theorem next_turn {n m : Nat} (cleared : (e.world n).Cleared) (later : n ≤ m)
    (turn : (e.act m).isScript = true) :
    ∃ k, (e.world k).Cleared ∧ (e.world k).script = (e.world n).script ∧
      (e.act k).isScript = true := by
  obtain ⟨gap, rfl⟩ := Nat.exists_eq_add_of_le later
  induction gap generalizing n with
  | zero => exact ⟨n, cleared, rfl, turn⟩
  | succ gap ih =>
    cases kind : (e.act n).isScript with
    | true => exact ⟨n, cleared, rfl, kind⟩
    | false =>
      have same := World.script_eq_of_returned cleared.1 kind (e.steps n)
      rw [← same]
      refine ih (cleared.step (e.steps n)) (Nat.le_add_right _ _) ?_
      rwa [Nat.add_right_comm]

theorem ends (fair : e.Fair) {n : Nat} (cleared : (e.world n).Cleared) :
    ∃ m, (e.world m).script = .ended ((e.world n).script.outcome?.getD .stopped) := by
  obtain ⟨outcome, ended⟩ | ⟨m, later, turn⟩ := fair n
  · exact ⟨n, by rw [ended]; rfl⟩
  · -- the others cannot change what the script has left, and its own turn makes it less
    obtain ⟨k, cleared', same, turn⟩ := next_turn cleared later turn
    have fewer := cleared'.left_lt (World.step_isScript turn (e.steps k))
    have settled := cleared'.verdict (e.steps k)
    rw [same] at settled
    rw [← settled]
    exact ends fair (cleared'.step (e.steps k))
termination_by ((e.world n).script.stage, (e.world n).script.left)
decreasing_by
  rw [same] at fewer
  exact Prod.lex_def.2 fewer

variable (scene body) in
/-- The interleaving in which every turn is the script's, as long as it takes it. -/
def alone (w : World σ) : Nat → World σ
  | 0 => w
  | n + 1 => ((alone w n).stepScript scene body true).getD (alone w n)

theorem exists_fair {w : World σ} (sound : w.Sound) (returned : w.spawner = .returned) :
    ∃ e : Execution scene body, e.world 0 = w ∧ e.Fair := by
  let act (n : Nat) : Act σ :=
    let u := alone scene body w n
    if (u.stepScript scene body true).isSome then .script true else .disturb u.crew.place
  have steps (n : Nat) :
      (alone scene body w n).step scene body (act n) = some (alone scene body w (n + 1)) := by
    rw [alone]
    cases stepped : (alone scene body w n).stepScript scene body true with
    | some u' => simp [act, stepped, World.step]
    | none =>
      simp [act, stepped, World.step, World.withPlace]
  have kept (n : Nat) :
      (alone scene body w n).Sound ∧ (alone scene body w n).spawner = .returned := by
    induction n with
    | zero => exact ⟨sound, returned⟩
    | succ n ih => exact ⟨ih.1.step (steps n), (World.step_flags ih.2 (steps n)).1⟩
  refine ⟨⟨alone scene body w, act, steps⟩, rfl, fun n => ?_⟩
  obtain ended | going := (kept n).1.goes_on (kept n).2 scene body true
  · exact .inl ended
  · exact .inr ⟨n, Nat.le_refl n, by simp [act, going, Act.isScript]⟩

end Execution

namespace World

/-! ### Scripts that are not stopped -/

theorem Sound.outcome?_kept {w w' : World σ} {act : Act σ} {outcome : Termination} (sound : w.Sound)
    (returned : w.script.outcome? = some outcome) (step : w.step scene body act = some w') :
    w'.script.outcome? = some outcome := by
  cases kind : act.isScript with
  | false => rw [sound.outcome?_eq kind step, returned]
  | true =>
    obtain same | ⟨frames, looking, -⟩ := (step_isScript kind step).outcome?_cases
    · rw [same, returned]
    · rw [looking] at returned
      cases returned

theorem run_outcome? {w w' : World σ} {acts : List (Act σ)} {outcome : Termination}
    (sound : w.Sound) (returned : w.script.outcome? = some outcome)
    (ran : w.run scene body acts = some w') : w'.script.outcome? = some outcome := by
  refine (run_keeps (P := fun u => u.Sound ∧ u.script.outcome? = some outcome) ?_
    ⟨sound, returned⟩ ran).2
  rintro u act u' ⟨sound, returned⟩ step
  exact ⟨sound.step step, sound.outcome?_kept returned step⟩

/-- A script comes to have ended only by a look at its flag with no frame left. -/
theorem exists_last_look {w w' : World σ} {acts : List (Act σ)} (sound : w.Sound)
    (unsettled : w.script.outcome? = none) (ran : w.run scene body acts = some w')
    (ended : w'.script.outcome? = some .endOfScript) :
    ∃ before starts after u, acts = before ++ .script starts :: after ∧
      w.run scene body before = some u ∧ u.script = .looking [] := by
  induction acts generalizing w with
  | nil =>
    cases ran
    rw [unsettled] at ended
    cases ended
  | cons act acts ih =>
    obtain ⟨between, step, ran⟩ := Option.bind_eq_some_iff.1 ran
    cases settled : between.script.outcome? with
    | none =>
      obtain ⟨before, starts, after, u, rfl, reached, looking⟩ := ih (sound.step step) settled ran
      refine ⟨act :: before, starts, after, u, rfl, ?_, looking⟩
      rw [run, step]
      exact reached
    | some outcome =>
      -- what this act has settled is kept to the end, so it is the look in question
      have kept := run_outcome? (sound.step step) settled ran
      rw [ended] at kept
      cases kept
      cases act with
      | script starts =>
        obtain same | ⟨frames, looking, ⟨-, stopped⟩ | ⟨-, rfl, -⟩⟩ :=
          (stepScript_cases step).outcome?_cases
        · rw [same, unsettled] at settled
          cases settled
        · rw [stopped] at settled
          cases settled
        · exact ⟨[], starts, acts, w, rfl, rfl, looking⟩
      | _ =>
        rw [sound.outcome?_eq rfl step, unsettled] at settled
        cases settled

theorem ScriptStep.of_looking {w w' : World σ} {frames : List Frame} (step : ScriptStep body w w')
    (looking : w.script = .looking frames) :
    w.running = true ∨ w'.script.outcome? = some .stopped := by
  cases step with
  | move moves =>
    rw [looking] at moves
    cases moves with
    | stop => exact .inr rfl
    | finish set | pass set => exact .inl set
  | register here | start here | release here | lower here | sign here =>
    rw [looking] at here
    cases here

/-- A look that finds the flag cleared stops the script. -/
theorem running_of_look {w u w' : World σ} {before after : List (Act σ)} {starts : Bool}
    {frames : List Frame} (sound : w.Sound) (reached : w.run scene body before = some u)
    (looking : u.script = .looking frames)
    (ran : w.run scene body (before ++ .script starts :: after) = some w')
    (ended : w'.script.outcome? = some .endOfScript) : u.running = true := by
  have sound' : u.Sound := run_keeps (fun _ _ _ => Sound.step) sound reached
  rw [run_append, reached, Option.bind_some] at ran
  obtain ⟨between, step, ran⟩ := Option.bind_eq_some_iff.1 ran
  obtain set | stopped := (stepScript_cases step).of_looking looking
  · exact set
  · rw [run_outcome? (sound'.step step) stopped ran] at ended
    cases ended

/-- Once a call made after the spawn has cleared the script's flag, that flag stays cleared. The
script begins no step of a frame but one it has already passed the look for, it does not end as if
it had not been stopped unless it was past its last look, and given turns it ends. The same call
clears the flag of the jobs next, and from then on the script begins no tick but one it has already
passed the look for. Conversely a script that ends unstopped has found the flag set at every look,
the last one with no frame left. -/
theorem stop_not_lost {w₀ w : World σ} {before : List (Act σ)} (resting : w₀.Resting)
    (ran : w₀.run scene body before = some w) :
    (∀ call ∈ w.calls, call.late = true → call.phase ≠ .clearing →
      (∀ after w', w.run scene body after = some w' →
        w'.running = false ∧
        (∀ f frames, w'.script = .arriving f frames →
          w.script = .arriving f frames ∧ ∀ act ∈ after, act.isScript = false) ∧
        (call.phase ≠ .cancelling → w'.crew.running = false ∧
          ∀ job frames, w'.script = .driving (.ticking job) frames →
            w.script = .driving (.ticking job) frames ∧ ∀ act ∈ after, act.isScript = false) ∧
        (w.script.outcome? = none → w'.script.outcome? ≠ some .endOfScript)) ∧
      (∃ e : Execution scene body, e.world 0 = w ∧ e.Fair) ∧
      ∀ e : Execution scene body, e.world 0 = w → e.Fair →
        ∃ n, (e.world n).script = .ended (w.script.outcome?.getD .stopped)) ∧
    (w.script.outcome? = some .endOfScript →
      (∀ early starts late u frames, before = early ++ .script starts :: late →
        w₀.run scene body early = some u → u.script = .looking frames → u.running = true) ∧
      ∃ early starts late u, before = early ++ .script starts :: late ∧
        w₀.run scene body early = some u ∧ u.script = .looking []) := by
  have sound : w.Sound := run_keeps (fun _ _ _ => Sound.step) resting.sound ran
  have heeds : ∀ call ∈ w.calls, call.late = true → w.Heeds call := by
    refine run_keeps (P := fun u => ∀ call ∈ u.calls, call.late = true → u.Heeds call)
      (fun _ _ _ => step_heeds) ?_ ran
    rw [resting.2.2.1]
    nofun
  refine ⟨?_, ?_⟩
  · intro call member late past
    obtain ⟨returned, clear, cancel⟩ := heeds call member late
    have cleared : w.Cleared := ⟨returned, clear past⟩
    refine ⟨?_, Execution.exists_fair sound returned, ?_⟩
    · intro after w' ran'
      have cleared' : w'.Cleared := run_keeps (fun _ _ _ => Cleared.step) cleared ran'
      refine ⟨cleared'.2, ?_, ?_, ?_⟩
      · intro f frames there
        exact run_unreached (fun _ _ _ => Cleared.step) (fun _ => And.left)
          (fun u u' cleared step => cleared.ne_arriving step f frames) cleared ran' there
      · intro past'
        have cancelled : w.Cancelled := ⟨returned, cancel past past'⟩
        refine ⟨(run_keeps (fun _ _ _ => Cancelled.step) cancelled ran').2, ?_⟩
        intro job frames there
        exact run_unreached (fun _ _ _ => Cancelled.step) (fun _ => And.left)
          (fun u u' cancelled step => cancelled.ne_ticking step job frames) cancelled ran' there
      · intro unsettled ended
        have settled := run_verdict cleared ran'
        rw [unsettled, ended] at settled
        cases settled
    · rintro e rfl fair
      exact e.ends fair cleared
  · intro ended
    refine ⟨?_, exists_last_look resting.sound (by rw [resting.2.1]; rfl) ran ended⟩
    rintro early starts late u frames rfl reached looking
    exact running_of_look resting.sound reached looking ran ended

end World

/-- The flags are cleared between the script's look and the step it has looked for. It takes that
step, which opens the loop, and is stopped by its next look. -/
theorem stop_not_lost_leftover :
    ∃ w w', World.leftover.run (Session.scene []) [.forever 1 []]
        (List.replicate 5 (.spawner true) ++
          [.script true, .script true, .call, .caller 0 false, .caller 0 false]) = some w ∧
      w.run (Session.scene []) [.forever 1 []] (List.replicate 3 (.script true)) = some w' ∧
      w.script = .arriving (.new .block [.forever 1 []]) [] ∧ w'.script = .returned .stopped ∧
      w'.running = false ∧
      ∀ e : Execution (Session.scene []) [.forever 1 []], e.world 0 = w → e.Fair →
        ∃ n, (e.world n).script = .ended .stopped := by
  have resting : World.leftover.Resting := Session.world_resting _ _
  have before : World.leftover.run (Session.scene []) [.forever 1 []]
      (List.replicate 5 (.spawner true) ++
        [.script true, .script true, .call, .caller 0 false, .caller 0 false]) = some _ := rfl
  have heeded := (World.stop_not_lost resting before).1 _ (.head _) rfl nofun
  have cleared := (heeded.1 (List.replicate 3 (.script true)) _ rfl).1
  exact ⟨_, _, before, rfl, rfl, rfl, cleared, heeded.2.2⟩

end RobotScript
