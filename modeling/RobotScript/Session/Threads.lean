import RobotScript.Engine.Crew
import RobotScript.Session.Basic

/-!
# The threads of a session

A session that runs on a thread of its own, at the grain at which threads can interleave: the thread
that spawns it, the script, its background workers and any number of calls that ask it to stop.
Every look at a shared cell and every change of one is a step of its own, and any thread may take
the next step.
-/

namespace RobotScript

variable {σ : Type}

/-- What the threads of a session act on, but for the cells they share. -/
structure Scene (σ : Type) extends Ground σ where
  /-- Makes a line the current one. -/
  jump : Nat → σ → σ
  evaluate : Expr → σ → Except ExprError Value × σ
  assign : String → Value → σ → σ
  print : Bool → String → σ → σ
  /-- What comes before the walk: the variables, the program and the robot's status. -/
  enter : σ → σ
  /-- What comes right after it. -/
  leave : σ → σ

/-- The line that a step of `f` goes to before anything else. The end of a block has none. -/
def Frame.line? (f : Frame) : Option Nat :=
  match f.stmts[f.next]?, f.kind with
  | some stmt, _ => some stmt.line
  | none, .block => none
  | none, .loop line _ | none, .forever line => some line

namespace Scene

/-- What a step of the script acts on. The jump to its line comes before it, and the errand that a
command leaves is kept to be run after it. -/
def host (scene : Scene σ) : Host (σ × Errand Float32) where
  running _ := true
  jump _ s := s
  evaluate e s := let (v, t) := scene.evaluate e s.1; (v, t, s.2)
  assign name value s := (scene.assign name value s.1, s.2)
  print newline text s := (scene.print newline text s.1, s.2)
  command text s :=
    match scene.order text s.1 with
    | (.ok errand, t) => (.ok errand.completion, t, errand)
    | (.error fault, t) => (.error fault, t, s.2)
  drive _ s := s

end Scene

/-- A session and the source of its script, which starts with `vars`. Of the cells that the threads
share the session's own are not looked at. -/
def Session.scene (vars : Variables) : Scene (Session × Source) where
  toGround := Engine.ground.within (·.1.engine) fun engine s => ({ s.1 with engine }, s.2)
  jump line s := (s.1, s.2.jump line)
  evaluate e s := let (v, session) := s.1.evaluate e; (v, session, s.2)
  assign name value s := (s.1.assign name value, s.2)
  print newline text s := (s.1.print newline text, s.2)
  enter s := ({ s.1 with vars }.withRobot ({ · with status := .running }), s.2.exhaust)
  leave s := (s.1.withRobot ({ · with status := .stopped }), s.2)

theorem Session.scene_order (vars : Variables) (text : String) (place : Session × Source) :
    (Session.scene vars).order text place =
      ((place.1.engine.order text).1,
        { place.1 with engine := (place.1.engine.order text).2 }, place.2) :=
  rfl

/-! ### Where the threads stand -/

/-- The script, by what it does next. It looks at the flag before every step of a frame and once
more when no frame is left. -/
inductive Script where
  | unborn
  | entering
  | looking (frames : List Frame)
  | arriving (f : Frame) (frames : List Frame)
  | acting (f : Frame) (frames : List Frame)
  /-- About to count a worker for a job. -/
  | counting (job : Job Float32) (frames : List Frame)
  /-- About to start the worker of that number. -/
  | starting (i : Nat) (frames : List Frame)
  /-- The worker could not be started and is about to be released. -/
  | releasing (i : Nat) (frames : List Frame)
  | driving (progress : Progress) (frames : List Frame)
  /-- The walk is over. The robot's status, the flag and the sign of the end come after it. -/
  | returned (outcome : Termination)
  | lowering (outcome : Termination)
  | signing (outcome : Termination)
  | ended (outcome : Termination)

/-- What is to be done once a step has left an errand. -/
def Script.afterStep (frames : List Frame) : Errand Float32 → Script
  | .nothing => .looking frames
  | .drive job => .driving (.looking job) frames
  | .launch job => .counting job frames

/-- The thread that spawns a session: it begins it, makes a thread for its script and returns. -/
inductive Spawner where
  | opening | raising | resuming | making | returning | returned | refused
deriving DecidableEq

/-- A call that asks a session to stop. It clears both flags and silences the speaker, then looks
at the end and, if it finds that signed, at the count, again and again until its time is up. -/
inductive Call.Phase where
  | clearing | cancelling | silencing | polling | tallying | waiting
  | answered (acknowledged : Bool)
deriving DecidableEq

structure Call where
  /-- Whether it was made after the session had been spawned. -/
  late : Bool
  phase : Call.Phase

/-- A session and all who act on it. -/
structure World (σ : Type) where
  crew : Crew σ
  running : Bool
  terminated : Bool
  spawner : Spawner
  script : Script
  calls : List Call

/-- Whose step comes next. A thread that the step would make is made or refused; the time of a call
is up or not; and others may change the place as they like. -/
inductive Act (σ : Type) where
  | spawner (starts : Bool)
  | script (starts : Bool)
  | worker (i : Nat)
  | call
  | caller (i : Nat) (expired : Bool)
  | disturb (place : σ)

namespace World

/-! ### Steps -/

def withPlace (w : World σ) (place : σ) : World σ :=
  { w with crew := { w.crew with place := place } }

def stepSpawner (starts : Bool) (w : World σ) : Option (World σ) :=
  match w.spawner with
  | .opening => some { w with terminated := false, spawner := .raising }
  | .raising => some { w with running := true, spawner := .resuming }
  | .resuming => some { w with crew := { w.crew with running := true }, spawner := .making }
  | .making =>
    some (if starts then { w with script := .entering, spawner := .returning }
      else { w with spawner := .refused })
  | .returning => some { w with spawner := .returned }
  | .returned | .refused => none

/-- The next step of the script, whose program is `body`. -/
def stepScript (scene : Scene σ) (body : List Stmt) (starts : Bool) (w : World σ) :
    Option (World σ) :=
  match w.script with
  | .unborn | .ended _ => none
  | .entering =>
    some { w.withPlace (scene.enter w.crew.place) with script := .looking [.new .block body] }
  | .looking [] =>
    some { w with script := .returned (if w.running then .endOfScript else .stopped) }
  | .looking (f :: frames) =>
    some { w with script := if w.running then .arriving f frames else .returned .stopped }
  | .arriving f frames =>
    some { w.withPlace (f.line?.elim w.crew.place (scene.jump · w.crew.place)) with
      script := .acting f frames }
  | .acting f frames =>
    let (frames, place, errand) := scene.host.step f frames (w.crew.place, .nothing)
    some { w.withPlace place with script := .afterStep frames errand }
  | .counting job frames =>
    some { w with crew := w.crew.register job, script := .starting w.crew.workers.length frames }
  | .starting i frames =>
    some (if starts then { w with crew := w.crew.start i, script := .looking frames }
      else { w with script := .releasing i frames })
  | .releasing i frames => some { w with crew := w.crew.release i, script := .looking frames }
  | .driving progress frames =>
    let (progress?, place) := progress.advance scene.toGround w.crew.running w.crew.place
    some { w.withPlace place with script := progress?.elim (.looking frames) (.driving · frames) }
  | .returned outcome =>
    some { w.withPlace (scene.leave w.crew.place) with script := .lowering outcome }
  | .lowering outcome => some { w with running := false, script := .signing outcome }
  | .signing outcome => some { w with terminated := true, script := .ended outcome }

/-- What a call in this phase does to the world, and the phase after it. -/
def stepCall (scene : Scene σ) (expired : Bool) (w : World σ) :
    Call.Phase → Option (World σ × Call.Phase)
  | .clearing => some ({ w with running := false }, .cancelling)
  | .cancelling => some ({ w with crew := { w.crew with running := false } }, .silencing)
  | .silencing => some (w.withPlace (scene.silence w.crew.place), .polling)
  | .polling => some (w, if w.terminated then .tallying else .waiting)
  | .tallying => some (w, if w.crew.count = 0 then .answered true else .waiting)
  | .waiting => some (w, if expired then .answered false else .polling)
  | .answered _ => none

def stepCaller (scene : Scene σ) (i : Nat) (expired : Bool) (w : World σ) : Option (World σ) :=
  w.calls[i]?.bind fun call =>
    (w.stepCall scene expired call.phase).map fun (w, phase) =>
      { w with calls := w.calls.set i { call with phase := phase } }

def step (scene : Scene σ) (body : List Stmt) (w : World σ) : Act σ → Option (World σ)
  | .spawner starts => w.stepSpawner starts
  | .script starts => w.stepScript scene body starts
  | .worker i => (w.crew.advance scene.toGround i).map fun crew => { w with crew := crew }
  | .call => some { w with calls := w.calls ++ [⟨w.spawner = .returned, .clearing⟩] }
  | .caller i expired => w.stepCaller scene i expired
  | .disturb place => some (w.withPlace place)

def run (scene : Scene σ) (body : List Stmt) : List (Act σ) → World σ → Option (World σ)
  | [], w => some w
  | act :: acts, w => (w.step scene body act).bind (run scene body acts)

/-- About to be spawned. Workers of an earlier run may still be there. -/
def Resting (w : World σ) : Prop :=
  w.spawner = .opening ∧ w.script = .unborn ∧ w.calls = [] ∧ w.crew.count = w.crew.live

end World

/-- A session about to be spawned. -/
def Session.world (s : Session) (source : Source) : World (Session × Source) where
  crew := .ofEngine s.engine (s, source)
  running := s.running
  terminated := s.terminated
  spawner := .opening
  script := .unborn
  calls := []

theorem Session.world_resting (s : Session) (source : Source) : (s.world source).Resting := by
  refine ⟨rfl, rfl, rfl, ?_⟩
  rw [Crew.live, world, Crew.ofEngine, List.countP_map]
  exact (List.countP_eq_length.2 fun _ _ => rfl).symm

end RobotScript
