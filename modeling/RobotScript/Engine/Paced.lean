import RobotScript.Text.Quoted

/-!
# Paced runs

A paced run repeats a step at fixed intervals. It is paced against a deadline that moves on by one
interval per tick, so a step that takes long is made up for by shorter sleeps later and does not
stretch the run.
-/

namespace RobotScript

/-- How a run sees the world it changes: whether it may go on, the time, and sleeping. -/
structure Clock (σ : Type) where
  running : σ → Bool
  now : σ → Nat
  sleep : Nat → σ → σ

/-- A step to be taken `ticks` times, and what to do at the end. -/
structure Paced (σ : Type) where
  label : String
  ticks : Nat
  step : σ → σ
  finish : Option (σ → σ)

namespace Paced

variable {σ : Type}

def new (label : String) (ticks : Nat) (step : σ → σ) : Paced σ := ⟨label, ticks, step, none⟩

/-- Lets `ticks` ticks pass. -/
def pause (label : String) (ticks : Nat) : Paced σ := new label ticks id

/-- One line of text that tells a run from others. -/
def describe (p : Paced σ) : String :=
  "Mover \x7b label: " ++ Text.quoted p.label ++ ", ticks: " ++ toString p.ticks ++ ", .. \x7d"

/-- Only the latest finish counts. -/
def onFinish (p : Paced σ) (finish : σ → σ) : Paced σ := { p with finish := some finish }

/-- Sleeps until `deadline`, unless it has passed. -/
def rest (clock : Clock σ) (deadline : Nat) (s : σ) : σ :=
  let now := clock.now s
  if now < deadline then clock.sleep (deadline - now) s else s

/-- Up to `n` ticks after `deadline`. The answer is whether all of them ran. -/
def ticking (clock : Clock σ) (interval : Nat) (step : σ → σ) : Nat → Nat → σ → Bool × σ
  | 0, _, s => (true, s)
  | n + 1, deadline, s =>
    if clock.running s then
      let deadline := deadline + interval
      ticking clock interval step n deadline (rest clock deadline (step s))
    else (false, s)

/-- The whole run: its ticks until they are done or it is stopped, then its finish. -/
def run (clock : Clock σ) (interval : Nat) (p : Paced σ) (s : σ) : Bool × σ :=
  let (completed, s) := ticking clock interval p.step p.ticks (clock.now s) s
  (completed, p.finish.elim s (· s))

end Paced

end RobotScript
