import RobotScript.Proofs.Session.Following
import RobotScript.Proofs.Session.Unwinding
import RobotScript.Session.Basic

/-!
# Walks and structure

The walker has no recursion: it counts through the statements of its innermost frame, cuts the
stack for `break` and `continue`, and tests a loop again from the frame. It gives a program its
structured meaning all the same, with the same events in the same order.
-/

namespace RobotScript

namespace Host

variable {σ : Type} {host : Host σ}

theorem walkProgram_iff {body : List Stmt} {s t : σ}
    (unstopped : ∀ fuel u, host.walkProgram fuel body s ≠ some (.stopped, u)) :
    (∃ fuel, host.walkProgram fuel body s = some (.endOfScript, t)) ↔
      host.Runs false body s .done t := by
  constructor
  · rintro ⟨fuel, walked⟩
    exact runs_program (finishes_of_walk walked)
  · intro runs
    obtain ⟨fuel, walked | ⟨u, stopped⟩⟩ := walk_of_ends (ends_of_runs runs)
    · exact ⟨fuel, walked⟩
    · exact absurd stopped (unstopped fuel u)

/-! ### Watched walks -/

/-- A result without the log. -/
def unlogged {α : Type} (x : α × σ × List Event) : α × σ := (x.1, x.2.1)

theorem unlogged_value? (host : Host σ) (e : Expr) (line : Nat) (r : σ × List Event) :
    unlogged (host.logged.value? e line r) = host.value? e line r.1 := by
  unfold value?
  rcases read : host.evaluate e r.1 with ⟨fault | v, t⟩ <;> simp only [logged, read] <;> rfl

theorem unlogged_test? (host : Host σ) (e : Expr) (line : Nat) (r : σ × List Event) :
    unlogged (host.logged.test? e line r) = host.test? e line r.1 := by
  rw [test?, test?, ← unlogged_value?]
  rfl

theorem unlogged_check? (host : Host σ) (c : Condition) (line : Nat) (r : σ × List Event) :
    unlogged (host.logged.check? c line r) = host.check? c line r.1 := by
  cases c with
  | error fault => rfl
  | ok e =>
    rw [check?, check?, ← unlogged_test?]
    rfl

theorem unlogged_execute (host : Host σ) (stmt : Stmt) (frames : List Frame)
    (r : σ × List Event) :
    unlogged (host.logged.execute stmt frames r) = host.execute stmt frames r.1 := by
  cases stmt with
  | branch line c body otherwise =>
    rw [execute, execute, ← unlogged_check?]
    rcases host.logged.check? c line r with ⟨_ | ⟨e, _ | _⟩, t⟩ <;> rfl
  | loop line c body =>
    rw [execute, execute, ← unlogged_check?]
    rcases host.logged.check? c line r with ⟨_ | ⟨e, _ | _⟩, t⟩ <;> rfl
  | forever line body => rfl
  | group line closed body => cases closed <;> rfl
  | leave line =>
    simp only [execute]
    cases leaveLoop? frames <;> rfl
  | again line =>
    simp only [execute]
    cases endPass? frames <;> rfl
  | strayEnd line | strayElse line | invalid line fault => rfl
  | set line name e =>
    rw [execute, execute, ← unlogged_value?]
    rcases host.logged.value? e line r with ⟨_ | v, t⟩ <;> rfl
  | print line newline e =>
    rw [execute, execute, ← unlogged_value?]
    rcases host.logged.value? e line r with ⟨_ | v, t⟩ <;> rfl
  | command line text =>
    simp only [execute]
    rcases carried : host.command text r.1 with ⟨fault | _ | job, t⟩ <;>
      simp only [logged, carried] <;> rfl

theorem unlogged_wrapUp (host : Host σ) (f : Frame) (frames : List Frame) (r : σ × List Event) :
    unlogged (host.logged.wrapUp f frames r) = host.wrapUp f frames r.1 := by
  unfold wrapUp
  cases f.kind with
  | block | forever line => rfl
  | loop line e =>
    simp only
    rw [show host.jump line r.1 = (host.logged.jump line r).1 from rfl, ← unlogged_test?]
    rcases host.logged.test? e line (host.logged.jump line r) with ⟨_ | _ | _, t⟩ <;> rfl

theorem unlogged_step (host : Host σ) (f : Frame) (frames : List Frame) (r : σ × List Event) :
    unlogged (host.logged.step f frames r) = host.step f frames r.1 := by
  unfold step
  cases f.stmts[f.next]? with
  | some stmt => exact unlogged_execute host stmt _ _
  | none => exact unlogged_wrapUp host f frames r

/-- Watching a walk does not change it. -/
theorem walk_logged (host : Host σ) (fuel : Nat) (frames : List Frame) (r : σ × List Event) :
    (host.logged.walk fuel frames r).map unlogged = host.walk fuel frames r.1 := by
  induction fuel generalizing frames r with
  | zero => cases frames <;> rfl
  | succ fuel ih =>
    cases frames with
    | nil => rfl
    | cons f frames =>
      rw [walk, walk, ← unlogged_step, show host.logged.running r = host.running r.1 from rfl]
      split
      · exact ih _ _
      · rfl

/-- What a walk does to its surroundings, in order. -/
def trace? (host : Host σ) (fuel : Nat) (body : List Stmt) (s : σ) : Option (List Event) :=
  (host.logged.walkProgram fuel body (s, [])).map (·.2.2)

theorem walkProgram_trace?_iff {fuel : Nat} {body : List Stmt} {s t : σ} {events : List Event} :
    host.walkProgram fuel body s = some (.endOfScript, t) ∧
        host.trace? fuel body s = some events ↔
      host.logged.walkProgram fuel body (s, []) = some (.endOfScript, t, events) := by
  have erased := walk_logged host fuel [.new .block body] (s, [])
  unfold trace?
  unfold walkProgram at erased ⊢
  rw [← erased]
  rcases host.logged.walk fuel [.new .block body] (s, []) with _ | ⟨outcome, u, log⟩
  · simp
  · simp [unlogged, and_assoc]

/-- More fuel does not change the answer. -/
theorem walk_unique {m n : Nat} {frames : List Frame} {s : σ} {x y : Termination × σ}
    (hx : host.walk m frames s = some x) (hy : host.walk n frames s = some y) : x = y := by
  induction m generalizing n frames s with
  | zero =>
    cases frames with
    | nil => cases n <;> exact Option.some.inj (hx.symm.trans hy)
    | cons f frames => simp [walk] at hx
  | succ m ih =>
    cases frames with
    | nil => cases n <;> exact Option.some.inj (hx.symm.trans hy)
    | cons f frames =>
      cases n with
      | zero => simp [walk] at hy
      | succ n =>
        rw [walk] at hx hy
        split at hx <;> rename_i running
        · rw [if_pos running] at hy
          exact ih hx hy
        · rw [if_neg running] at hy
          exact Option.some.inj (hx.symm.trans hy)

/-- A walk that is never stopped gives a program its structured meaning: the same state at its end
and the same events on the way. -/
theorem walkProgram_iff_runs (host : Host σ) (body : List Stmt) (s t : σ) (events : List Event)
    (unstopped : ∀ fuel u, host.walkProgram fuel body s ≠ some (.stopped, u)) :
    (∃ fuel, host.walkProgram fuel body s = some (.endOfScript, t) ∧
        host.trace? fuel body s = some events) ↔
      host.logged.Runs false body (s, []) .done (t, events) := by
  have watched : ∀ fuel u, host.logged.walkProgram fuel body (s, []) ≠ some (.stopped, u) := by
    intro fuel u stopped
    have erased := walk_logged host fuel [.new .block body] (s, [])
    rw [show host.logged.walk fuel [.new .block body] (s, []) = _ from stopped] at erased
    exact unstopped fuel u.1 erased.symm
  simp only [walkProgram_trace?_iff]
  exact walkProgram_iff watched

end Host

/-- A session in an arena of its own, about to run a script that nobody stops. -/
def Run.idle : Run where
  session :=
    let robot : Robot Float32 :=
      .new ⟨"Rover", .red, ⟨50.0, 50.0⟩, 0.0, 15.0⟩ ⟨⟨0.0, 0.0⟩, ⟨400.0, 400.0⟩⟩ .default
    (Session.new (.new robot .default .standard) .empty []).begin
  source := .ofLines []
  requests := ⟨fun _ => false, fun _ => false, fun _ => false⟩
  jumps := []
  prints := 0
  ticks := 0
  acks := []

theorem walkProgram_iff_runs_idle :
    ∃ t, Run.host.logged.Runs false
      [.set 1 "go" (.literal (.bool true)),
        .loop 2 (.ok (.variable "go"))
          [.set 3 "go" (.literal (.bool false)), .again 4, .leave 5],
        .forever 6 [.group 7 false [.leave 8], .leave 9],
        .again 10]
      (Run.idle, []) .done
      (t, [.jump 1, .assign "go" (.bool true), .jump 2, .jump 3, .assign "go" (.bool false),
        .jump 4, .jump 2, .jump 6, .jump 7, .print true "WARNING: Expected END. At line 7",
        .jump 8, .jump 10, .print true "WARNING: CONTINUE outside of a loop. At line 10"]) := by
  refine ⟨_, (Host.walkProgram_iff_runs Run.host _ Run.idle _ _ ?_).1 ⟨20, rfl, rfl⟩⟩
  intro fuel u stopped
  have answer := Host.walk_unique stopped (show Run.host.walk 20 _ _ = some _ from rfl)
  cases answer

end RobotScript
