import RobotScript.Engine.Basic

/-!
# Background threads

The jobs of an engine at the grain at which threads can interleave: a look at the flag, a tick, the
finish and a change of the count are steps of their own. Threads share one memory, in which every
step is seen by all later ones.
-/

namespace RobotScript

/-- What jobs and commands act on, but for the flag and the count. -/
structure Ground (σ : Type) where
  /-- Hands a command to the engine, which carries it out up to an errand. -/
  order : String → σ → Except CommandError (Errand Float32) × σ
  tick : Manoeuvre Float32 → σ → Manoeuvre Float32 × σ
  finish : Manoeuvre Float32 → σ → σ
  silence : σ → σ

variable {σ : Type}

/-- The same ground as a part of something larger. -/
def Ground.within {τ : Type} (ground : Ground σ) (get : τ → σ) (put : σ → τ → τ) : Ground τ where
  order text s := let (answer, part) := ground.order text (get s); (answer, put part s)
  tick manoeuvre s := let (manoeuvre, part) := ground.tick manoeuvre (get s); (manoeuvre, put part s)
  finish manoeuvre s := put (ground.finish manoeuvre (get s)) s
  silence s := put (ground.silence (get s)) s

/-- An engine as its threads act on it. They do not look at its own flag and jobs. -/
def Engine.ground : Ground (Engine Float32) where
  order text e := e.order text
  tick manoeuvre e := let (manoeuvre, robot) := manoeuvre.tick e.robot; (manoeuvre, { e with robot })
  finish manoeuvre e := { e with robot := manoeuvre.finish e.robot }
  silence e := e.tone .stop

/-! ### The run of a job -/

/-- Where the run of a job stands, by what it does next. A job that is ticking has found the flag
set and has the ticks after this one left. -/
inductive Progress where
  | looking (job : Job Float32)
  | ticking (job : Job Float32)
  | finishing (job : Job Float32)

/-- The next step of a run, which is over after its finish. A run without ticks left does not look
at the flag. -/
def Progress.advance (ground : Ground σ) (running : Bool) : Progress → σ → Option Progress × σ
  | .looking job, s =>
    match job.ticks with
    | 0 => (some (.finishing job), s)
    | ticks + 1 =>
      (some (if running then .ticking { job with ticks := ticks } else .finishing job), s)
  | .ticking job, s =>
    let (manoeuvre, s) := ground.tick job.manoeuvre s
    (some (.looking { job with manoeuvre := manoeuvre }), s)
  | .finishing job, s => (none, ground.finish job.manoeuvre s)

/-! ### Workers -/

/-- A thread in the background. It is counted before it is started, and until it has let go of its
place in the count. -/
inductive Worker where
  | counted (job : Job Float32)
  | working (progress : Progress)
  | leaving
  | gone

def Worker.isCounted : Worker → Bool
  | .gone => false
  | _ => true

/-- The workers of an engine, in the order of their registration, with the flag they look at and
the count of them. -/
structure Crew (σ : Type) where
  running : Bool
  count : Nat
  workers : List Worker
  place : σ

namespace Crew

/-- How many workers have registered and not let go. -/
def live (c : Crew σ) : Nat := c.workers.countP Worker.isCounted

def register (job : Job Float32) (c : Crew σ) : Crew σ :=
  { c with count := c.count + 1, workers := c.workers ++ [.counted job] }

/-- A worker that has registered begins to work. -/
def start (i : Nat) (c : Crew σ) : Crew σ :=
  match c.workers[i]? with
  | some (.counted job) => { c with workers := c.workers.set i (.working (.looking job)) }
  | _ => c

/-- A worker lets go of its place in the count. -/
def release (i : Nat) (c : Crew σ) : Crew σ :=
  { c with count := c.count - 1, workers := c.workers.set i .gone }

/-- The next step of a worker that has been started. -/
def advance (ground : Ground σ) (i : Nat) (c : Crew σ) : Option (Crew σ) :=
  match c.workers[i]? with
  | some (.working progress) =>
    let (progress?, place) := progress.advance ground c.running c.place
    some { c with workers := c.workers.set i (progress?.elim .leaving .working), place := place }
  | some .leaving => some (c.release i)
  | _ => none

/-! ### Engines in the hands of several threads -/

/-- The jobs of an engine in the background, between two ticks. -/
def ofEngine (e : Engine Float32) (place : σ) : Crew σ where
  running := e.running
  count := e.background.length
  workers := e.background.map fun job => .working (.looking job)
  place := place

/-- A command, a stop, a resumption, a step of a worker, or a change of the place by others. A
thread that a command would start may be refused. -/
inductive Act (σ : Type) where
  | command (text : String) (starts : Bool)
  | stop
  | resume
  | worker (i : Nat)
  | disturb (place : σ)

/-- Sends a job to the background, on a thread of its own if one can be had. -/
def launch (starts : Bool) (job : Job Float32) (c : Crew σ) : Crew σ :=
  let i := c.workers.length
  if starts then (c.register job).start i else (c.register job).release i

def step (ground : Ground σ) (c : Crew σ) : Act σ → Option (Crew σ)
  | .command text starts =>
    match ground.order text c.place with
    | (.ok (.launch job), place) => some (launch starts job { c with place := place })
    | (_, place) => some { c with place := place }
  | .stop => some { c with running := false, place := ground.silence c.place }
  | .resume => some { c with running := true }
  | .worker i => c.advance ground i
  | .disturb place => some { c with place := place }

def run (ground : Ground σ) : List (Act σ) → Crew σ → Option (Crew σ)
  | [], c => some c
  | act :: acts, c => (c.step ground act).bind (run ground acts)

end Crew

end RobotScript
