import RobotScript.Proofs.Session.Interleaving
import RobotScript.Proofs.Session.Walk

/-!
# Acknowledged stops

A call that comes after the spawn answers true only once the script has ended and the last worker
has gone, and then no worker can come again. It looks at the end before it looks at the count: as
the script has ended by then, a count of zero is final.
-/

namespace RobotScript

variable {σ : Type} {scene : Scene σ} {body : List Stmt}

/-- The worker that the script has counted and is about to start or to release. -/
def Script.pending? : Script → Option Nat
  | .starting i _ | .releasing i _ => some i
  | _ => none

theorem Script.Moves.pending?_eq {running movers : Bool} {script script' : Script}
    (moves : script.Moves body running movers script') {i : Nat}
    (pending : script'.pending? = some i) : script.pending? = some i := by
  cases moves with
  | refuse => exact pending
  | _ => cases pending

theorem Script.Moves.born {running movers : Bool} {script script' : Script}
    (moves : script.Moves body running movers script') : script ≠ .unborn ∧ script' ≠ .unborn := by
  cases moves <;> exact ⟨nofun, nofun⟩

namespace World

/-- The script has returned and signed its end. -/
def Over (w : World σ) : Prop := ∃ outcome, w.script = .ended outcome

/-- What a call in this phase has found out, and still holds. -/
def Upholds (w : World σ) : Call.Phase → Prop
  | .tallying => w.Over
  | .answered true => w.Over ∧ w.crew.live = 0
  | _ => True

/-- What holds in every interleaving. -/
structure Sound (w : World σ) : Prop where
  tallied : w.crew.count = w.crew.live
  born : w.script ≠ .unborn ↔ w.spawner = .returning ∨ w.spawner = .returned
  signed : w.terminated = true → w.spawner = .opening ∨ w.Over
  pending : ∀ i, w.script.pending? = some i → ∃ job, w.crew.workers[i]? = some (.counted job)
  calls : ∀ call ∈ w.calls, call.late = true → w.spawner = .returned ∧ w.Upholds call.phase

theorem Resting.sound {w : World σ} (resting : w.Resting) : w.Sound := by
  obtain ⟨opening, unborn, none, tallied⟩ := resting
  refine ⟨tallied, by simp [unborn, opening], fun _ => .inl opening, ?_, ?_⟩
  · intro i pending
    rw [unborn] at pending
    cases pending
  · intro call member
    rw [none] at member
    cases member

/-! ### The script -/

theorem ScriptStep.kept {w w' : World σ} (step : ScriptStep body w w') :
    w'.spawner = w.spawner ∧ w'.calls = w.calls := by
  cases step <;> exact ⟨rfl, rfl⟩

theorem ScriptStep.not_over {w w' : World σ} (step : ScriptStep body w w') : ¬w.Over := by
  rintro ⟨outcome, ended⟩
  cases step with
  | move moves =>
    rw [ended] at moves
    cases moves
  | register here | start here | release here | lower here | sign here =>
    rw [ended] at here
    cases here

theorem ScriptStep.born {w w' : World σ} (step : ScriptStep body w w') :
    w.script ≠ .unborn ∧ w'.script ≠ .unborn := by
  cases step with
  | move moves => exact moves.born
  | register here | start here | release here | lower here | sign here =>
    rw [here]
    exact ⟨nofun, nofun⟩

theorem Upholds.of_not_over {w w' : World σ} {phase : Call.Phase} (running : ¬w.Over)
    (upholds : w.Upholds phase) : w'.Upholds phase := by
  cases phase with
  | tallying => exact absurd upholds running
  | answered acknowledged =>
    cases acknowledged with
    | true => exact absurd upholds.1 running
    | false => trivial
  | _ => trivial

theorem ScriptStep.tallied {w w' : World σ} (sound : w.Sound) (step : ScriptStep body w w') :
    w'.crew.count = w'.crew.live := by
  cases step with
  | move | lower | sign => exact sound.tallied
  | register counting => exact Crew.tallied_register sound.tallied _
  | start starting =>
    obtain ⟨job, found⟩ := sound.pending _ (by rw [starting]; rfl)
    exact Crew.tallied_start sound.tallied found
  | release releasing =>
    obtain ⟨job, found⟩ := sound.pending _ (by rw [releasing]; rfl)
    exact Crew.tallied_release sound.tallied found rfl

theorem ScriptStep.pending {w w' : World σ} (sound : w.Sound) (step : ScriptStep body w w')
    (i : Nat) (pending : w'.script.pending? = some i) :
    ∃ job, w'.crew.workers[i]? = some (.counted job) := by
  cases step with
  | move moves => exact sound.pending i (moves.pending?_eq pending)
  | register counting =>
    cases pending
    exact ⟨_, List.getElem?_concat_length⟩
  | start | release | lower | sign => cases pending

theorem ScriptStep.signed {w w' : World σ} (step : ScriptStep body w w')
    (signed : w'.terminated = true) : w.terminated = true ∨ w'.Over := by
  cases step with
  | sign => exact .inr ⟨_, rfl⟩
  | move | register | start | release | lower => exact .inl signed

theorem ScriptStep.sound {w w' : World σ} (sound : w.Sound) (step : ScriptStep body w w') :
    w'.Sound := by
  obtain ⟨spawner, calls⟩ := step.kept
  have born : w'.script ≠ .unborn ↔ w'.spawner = .returning ∨ w'.spawner = .returned :=
    iff_of_true step.born.2 (spawner ▸ sound.born.1 step.born.1)
  refine ⟨step.tallied sound, born, ?_, step.pending sound, ?_⟩
  · intro signed
    obtain before | ended := step.signed signed
    · -- an end signed before is that of this script, which would take no step any more
      exact .inl (spawner ▸ (sound.signed before).resolve_right step.not_over)
    · exact .inr ended
  · intro call member late
    rw [calls] at member
    obtain ⟨returned, upholds⟩ := sound.calls call member late
    exact ⟨spawner ▸ returned, upholds.of_not_over step.not_over⟩

/-! ### The other threads -/

theorem Sound.withPlace {w : World σ} (sound : w.Sound) (place : σ) : (w.withPlace place).Sound :=
  ⟨sound.tallied, sound.born, sound.signed, sound.pending, sound.calls⟩

/-- A session whose script has not taken a step yet. -/
theorem Sound.of_unsigned {w : World σ} (tallied : w.crew.count = w.crew.live)
    (script : w.script = .unborn ∧ w.spawner ≠ .returning ∧ w.spawner ≠ .returned ∨
      w.script = .entering ∧ w.spawner = .returning)
    (unsigned : w.terminated = false) (calls : ∀ call ∈ w.calls, call.late ≠ true) : w.Sound := by
  refine ⟨tallied, ?_, ?_, ?_, ?_⟩
  · obtain ⟨unborn, spawning⟩ | ⟨entering, returning⟩ := script
    · exact iff_of_false (absurd unborn) (not_or.2 spawning)
    · exact iff_of_true (by simp [entering]) (.inl returning)
  · intro signed
    rw [unsigned] at signed
    cases signed
  · intro i pending
    obtain ⟨unborn, -⟩ | ⟨entering, -⟩ := script
    · rw [unborn] at pending
      cases pending
    · rw [entering] at pending
      cases pending
  · intro call member late
    exact absurd late (calls call member)

theorem Sound.unborn {w : World σ} (sound : w.Sound) (early : w.spawner ≠ .returning)
    (early' : w.spawner ≠ .returned) : w.script = .unborn := by
  by_cases unborn : w.script = .unborn
  · exact unborn
  · exact absurd (sound.born.1 unborn) (not_or.2 ⟨early, early'⟩)

theorem Sound.unsigned {w : World σ} (sound : w.Sound) (opened : w.spawner ≠ .opening)
    (unborn : w.script = .unborn) : w.terminated = false := by
  cases signed : w.terminated with
  | false => rfl
  | true =>
    obtain opening | ⟨_, ended⟩ := sound.signed signed
    · exact absurd opening opened
    · rw [unborn] at ended
      cases ended

theorem Sound.stepSpawner {w w' : World σ} {starts : Bool} (sound : w.Sound)
    (step : w.stepSpawner starts = some w') : w'.Sound := by
  -- no call is late as long as the spawner takes steps
  have calls : ∀ call ∈ w.calls, call.late ≠ true := by
    intro call member late
    rw [World.stepSpawner, (sound.calls call member late).1] at step
    cases step
  unfold World.stepSpawner at step
  cases here : w.spawner with
  | opening =>
    have unborn := sound.unborn (by simp [here]) (by simp [here])
    rw [here] at step
    cases step
    exact .of_unsigned sound.tallied (.inl ⟨unborn, nofun, nofun⟩) rfl calls
  | raising | resuming =>
    have unborn := sound.unborn (by simp [here]) (by simp [here])
    have unsigned := sound.unsigned (by simp [here]) unborn
    rw [here] at step
    cases step
    exact .of_unsigned sound.tallied (.inl ⟨unborn, nofun, nofun⟩) unsigned calls
  | making =>
    have unborn := sound.unborn (by simp [here]) (by simp [here])
    have unsigned := sound.unsigned (by simp [here]) unborn
    rw [here] at step
    cases starts with
    | true =>
      cases step
      exact .of_unsigned sound.tallied (.inr ⟨rfl, rfl⟩) unsigned calls
    | false =>
      cases step
      exact .of_unsigned sound.tallied (.inl ⟨unborn, nofun, nofun⟩) unsigned calls
  | returning =>
    rw [here] at step
    cases step
    have born := sound.born.2 (.inl here)
    refine ⟨sound.tallied, iff_of_true born (.inr rfl), ?_, sound.pending, ?_⟩
    · intro signed
      exact .inr ((sound.signed signed).resolve_left (by simp [here]))
    · intro call member late
      exact absurd late (calls call member)
  | returned | refused => rw [here] at step; cases step

theorem Sound.advance {w : World σ} {crew : Crew σ} {i : Nat} (sound : w.Sound)
    (step : w.crew.advance scene.toGround i = some crew) : { w with crew := crew }.Sound := by
  obtain ⟨worker, worker', found, advances, workers, -, -⟩ := Crew.advance_cases step
  refine ⟨Crew.tallied_advance sound.tallied step, sound.born, sound.signed, ?_, ?_⟩
  · intro j pending
    obtain ⟨job, counted⟩ := sound.pending j pending
    refine ⟨job, ?_⟩
    have other : i ≠ j := by
      rintro rfl
      rw [found] at counted
      cases counted
      cases advances
    show crew.workers[j]? = _
    rw [workers, List.getElem?_set_ne other, counted]
  · intro call member late
    obtain ⟨returned, upholds⟩ := sound.calls call member late
    refine ⟨returned, ?_⟩
    rcases call with ⟨_, phase⟩
    cases phase with
    | answered acknowledged =>
      cases acknowledged with
      | true =>
        have positive := Crew.live_pos (List.mem_of_getElem? found) advances.isCounted
        have none := upholds.2
        omega
      | false => trivial
    | _ => exact upholds

theorem CallStep.kept {w w' : World σ} {phase phase' : Call.Phase}
    (step : CallStep w phase w' phase') :
    w'.spawner = w.spawner ∧ w'.script = w.script ∧ w'.crew.workers = w.crew.workers ∧
      w'.calls = w.calls := by
  cases step <;> exact ⟨rfl, rfl, rfl, rfl⟩

theorem CallStep.sound {w w' : World σ} {phase phase' : Call.Phase} (sound : w.Sound)
    (step : CallStep w phase w' phase') : w'.Sound := by
  cases step with
  | clear | cancel => exact ⟨sound.tallied, sound.born, sound.signed, sound.pending, sound.calls⟩
  | silence => exact sound.withPlace _
  | signed | unsigned | none | some | again | expire => exact sound

theorem CallStep.upholds {w w' : World σ} {phase phase' : Call.Phase} (sound : w.Sound)
    (returned : w.spawner = .returned) (upholds : w.Upholds phase)
    (step : CallStep w phase w' phase') : w'.Upholds phase' := by
  cases step with
  | signed signed => exact (sound.signed signed).resolve_left (by simp [returned])
  | none none => exact ⟨upholds, sound.tallied ▸ none⟩
  | clear | cancel | silence | unsigned | some | again | expire => trivial

theorem Sound.stepCaller {w w' : World σ} {i : Nat} {expired : Bool} (sound : w.Sound)
    (step : w.stepCaller scene i expired = some w') : w'.Sound := by
  obtain ⟨call, between, phase, found, called, rfl⟩ := stepCaller_cases step
  have after := called.sound sound
  refine ⟨after.tallied, after.born, after.signed, after.pending, ?_⟩
  intro other member late
  obtain member | rfl := List.mem_or_eq_of_mem_set member
  · exact after.calls other member late
  · obtain ⟨returned, upholds⟩ := sound.calls call (List.mem_of_getElem? found) late
    have upheld := called.upholds sound returned upholds
    exact ⟨called.kept.1 ▸ returned, upheld⟩

/-! ### Runs -/

theorem Sound.step {w w' : World σ} {act : Act σ} (sound : w.Sound)
    (step : w.step scene body act = some w') : w'.Sound := by
  cases act with
  | spawner starts => exact sound.stepSpawner step
  | script starts => exact (stepScript_cases step).sound sound
  | worker i =>
    obtain ⟨crew, advanced, rfl⟩ := Option.map_eq_some_iff.1 step
    exact sound.advance advanced
  | call =>
    cases step
    refine ⟨sound.tallied, sound.born, sound.signed, sound.pending, ?_⟩
    intro call member late
    obtain member | rfl := List.mem_append.1 member |>.imp_right List.mem_singleton.1
    · exact sound.calls call member late
    · exact ⟨of_decide_eq_true late, trivial⟩
  | caller i expired => exact sound.stepCaller step
  | disturb place =>
    cases step
    exact sound.withPlace place

/-- Once the script has ended and all workers have gone, both stay so. -/
theorem Sound.rests {w w' : World σ} {act : Act σ} (sound : w.Sound) (ended : w.Over)
    (none : w.crew.live = 0) (step : w.step scene body act = some w') :
    w'.Over ∧ w'.crew.workers = w.crew.workers := by
  cases act with
  | spawner starts =>
    obtain ⟨outcome, ended⟩ := ended
    have spawned := sound.born.1 (by simp [ended])
    change w.stepSpawner starts = some w' at step
    obtain returning | returned := spawned
    · rw [World.stepSpawner, returning] at step
      cases step
      exact ⟨⟨outcome, ended⟩, rfl⟩
    · rw [World.stepSpawner, returned] at step
      cases step
  | script starts => exact absurd ended (stepScript_cases step).not_over
  | worker i =>
    obtain ⟨crew, advanced, rfl⟩ := Option.map_eq_some_iff.1 step
    obtain ⟨worker, worker', found, advances, -⟩ := Crew.advance_cases advanced
    have positive := Crew.live_pos (List.mem_of_getElem? found) advances.isCounted
    omega
  | caller i expired =>
    obtain ⟨call, between, phase, found, called, rfl⟩ := stepCaller_cases step
    obtain ⟨-, script, workers, -⟩ := called.kept
    obtain ⟨outcome, ended⟩ := ended
    exact ⟨⟨outcome, script.trans ended⟩, workers⟩
  | call | disturb =>
    cases step
    exact ⟨ended, rfl⟩

theorem run_rests {w w' : World σ} {acts : List (Act σ)} (sound : w.Sound) (ended : w.Over)
    (none : w.crew.live = 0) (ran : w.run scene body acts = some w') :
    w'.crew.workers = w.crew.workers := by
  have kept := run_keeps (P := fun u => u.Sound ∧ u.Over ∧ u.crew.workers = w.crew.workers) ?_
    ⟨sound, ended, rfl⟩ ran
  · exact kept.2.2
  · rintro u act u' ⟨sound, ended, same⟩ step
    obtain ⟨ended', same'⟩ := sound.rests ended (by rw [Crew.live, same]; exact none) step
    exact ⟨sound.step step, ended', same'.trans same⟩

/-- The count is at all times that of the workers that have registered and not let go, so no release
finds it at zero. A call made after the spawn that answers true does so with the script ended and
every worker gone, and whatever happens later there is no other worker. -/
theorem acknowledgement_truthful {w₀ w : World σ} {acts : List (Act σ)} (resting : w₀.Resting)
    (ran : w₀.run scene body acts = some w) :
    w.crew.count = w.crew.live ∧
    (.leaving ∈ w.crew.workers ∨ (∃ i frames, w.script = .releasing i frames) →
      0 < w.crew.count) ∧
    ∀ call ∈ w.calls, call.late = true → call.phase = .answered true →
      (∃ outcome, w.script = .ended outcome) ∧ (∀ worker ∈ w.crew.workers, worker = .gone) ∧
      ∀ later w', w.run scene body later = some w' → w'.crew.workers = w.crew.workers := by
  have sound : w.Sound := run_keeps (fun _ _ _ => Sound.step) resting.sound ran
  refine ⟨sound.tallied, ?_, ?_⟩
  · rw [sound.tallied]
    rintro (leaving | ⟨i, frames, releasing⟩)
    · exact Crew.live_pos leaving rfl
    · obtain ⟨job, counted⟩ := sound.pending i (by rw [releasing]; rfl)
      exact Crew.live_pos (List.mem_of_getElem? counted) rfl
  · intro call member late answered
    have upholds := (sound.calls call member late).2
    rw [answered] at upholds
    obtain ⟨ended, none⟩ := upholds
    exact ⟨ended, Crew.live_eq_zero.1 none, fun later w' => run_rests sound ended none⟩

end World

/-- A session whose last script has left a job behind, about to be spawned on an endless one. -/
def World.leftover : World (Session × Source) :=
  let s := Run.idle.session
  let engine := { s.engine with background := [⟨"MOVE", 2, .straight 1.0⟩] }
  { s with engine }.world (.ofLines ["forever"])

/-- The session is spawned and asked to stop at once. -/
def Act.stopAtOnce : List (Act (Session × Source)) :=
  List.replicate 5 (.spawner true) ++
    [.call, .script true, .caller 0 false, .caller 0 false, .worker 0, .caller 0 false] ++
    List.replicate 4 (.script true) ++
    [.caller 0 false, .worker 0, .worker 0, .caller 0 false]

theorem acknowledgement_truthful_leftover :
    ∃ w, World.leftover.run (Session.scene []) [.forever 1 []] Act.stopAtOnce = some w ∧
      w.calls.map (·.phase) = [.answered true] ∧ w.script = .ended .stopped ∧
      ∀ worker ∈ w.crew.workers, worker = .gone := by
  have resting : World.leftover.Resting := Session.world_resting _ _
  have ran : World.leftover.run (Session.scene []) [.forever 1 []] Act.stopAtOnce = some _ := rfl
  have truthful := (World.acknowledgement_truthful resting ran).2.2
  exact ⟨_, ran, rfl, rfl, (truthful _ (.head _) rfl rfl).2.1⟩

end RobotScript
