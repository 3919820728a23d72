import RobotScript.Engine.Basic
import RobotScript.Expr.Eval
import RobotScript.Robot.Cone
import RobotScript.Script.Program
import RobotScript.Session.Console
import RobotScript.Session.Random
import RobotScript.Session.Walker

/-!
# Sessions

A session runs scripts on one robot, one after the other. Robot, console and random numbers carry
over from run to run; variables do not. A stop request may come in at any jump, after anything
printed, and after any tick in the foreground.
-/

namespace RobotScript

/-! ### Variables -/

abbrev Variables := List (String × Value)

namespace Variables

def get? (vars : Variables) (name : String) : Option Value := List.lookup name vars

def set (vars : Variables) (name : String) (value : Value) : Variables :=
  (name, value) :: List.filter (·.1 != name) vars

theorem get?_set (vars : Variables) (name other : String) (value : Value) :
    (vars.set name value).get? other = if other = name then some value else vars.get? other := by
  induction vars with
  | nil => grind [set, get?]
  | cons entry vars ih => grind [set, get?]

end Variables

/-! ### Sessions -/

structure Session where
  engine : Engine Float32
  console : Console
  /-- The robots that the distance sensor may see. -/
  neighbours : List (Robot Float32)
  vars : Variables
  random : Random
  running : Bool
  terminated : Bool

namespace Session

/-- A session at rest. Without a seed the random numbers are of no particular stream. -/
def new (engine : Engine Float32) (console : Console) (neighbours : List (Robot Float32)) :
    Session :=
  { engine, console, neighbours, vars := []
    random := .ofSeed (engine.settings.randomSeed.getD 0)
    running := false, terminated := true }

def robot (s : Session) : Robot Float32 := s.engine.robot

def settings (s : Session) : Settings Float32 := s.engine.settings

/-- What a sensor reads. Only random numbers change by being read. -/
def sense (s : Session) (sensor : Sensor) (random : Random) : Value × Random :=
  let k := s.robot.motion
  let whole (x : Float32) : Value := .int (Int64.ofInt (Scalar.round x))
  match sensor with
  | .x => (whole k.position.x, random)
  | .y => (whole k.position.y, random)
  | .angle => (.int (Int64.ofInt k.angle), random)
  | .compass => (.int (Int64.ofInt k.compass), random)
  | .distance =>
    let sighting := s.robot.nearest? s.settings s.neighbours
    (.float (sighting.elim s.settings.outOfRange (·.2)).toFloat, random)
  | .range => (whole s.settings.sensorRange, random)
  | .light => (.int 0, random)
  | .moving => (.bool k.isMoving, random)
  | .random => let (n, random) := random.upTo s.settings.randomMax; (.int n, random)
  | .name => (.text s.robot.name, random)

def environment (s : Session) : Environment Random where
  lookup := s.vars.get?
  read := s.sense

def withRobot (s : Session) (change : Robot Float32 → Robot Float32) : Session :=
  { s with engine := { s.engine with robot := change s.engine.robot } }

/-! ### What a script does to its session -/

def evaluate (e : Expr) (s : Session) : Except ExprError Value × Session :=
  let (v, random) := e.eval s.environment s.random
  (v, { s with random })

def assign (name : String) (value : Value) (s : Session) : Session :=
  { s with vars := s.vars.set name value }

def print (newline : Bool) (text : String) (s : Session) : Session :=
  let agent := s.robot.name
  { s with console := if newline then s.console.println agent text else s.console.print agent text }

/-! ### Beginning and stopping -/

/-- Asks the script and all jobs to stop. -/
def requestStop (s : Session) : Session :=
  { s with running := false, engine := s.engine.stop }

/-- Whether a stop request would be acknowledged: the script has returned and no job is left. -/
def acknowledges (s : Session) : Bool := s.terminated && s.engine.background.isEmpty

/-- Marks the session as running, before its script takes its first step. -/
def begin (s : Session) : Session :=
  { s with terminated := false, running := true, engine := s.engine.resume }

end Session

/-! ### Runs -/

/-- When stop requests come in, by the numbers of jumps, prints and ticks in the foreground. -/
structure StopRequests where
  atJump : Nat → Bool
  afterPrint : Nat → Bool
  afterTick : Nat → Bool

/-- A session in the course of running a script. -/
structure Run where
  session : Session
  source : Source
  requests : StopRequests
  /-- Lines jumped to, latest first. -/
  jumps : List Nat
  prints : Nat
  /-- Ticks in the foreground. -/
  ticks : Nat
  /-- The answers to the stop requests, latest first. -/
  acks : List Bool

namespace Run

/-- Takes a stop request in and answers it. -/
def requestStop (r : Run) : Run :=
  let session := r.session.requestStop
  { r with session, acks := session.acknowledges :: r.acks }

def jump (line : Nat) (r : Run) : Run :=
  let r := { r with source := r.source.jump line, jumps := line :: r.jumps }
  if r.requests.atJump r.jumps.length then r.requestStop else r

def evaluate (e : Expr) (r : Run) : Except ExprError Value × Run :=
  let (v, session) := r.session.evaluate e
  (v, { r with session })

def assign (name : String) (value : Value) (r : Run) : Run :=
  { r with session := r.session.assign name value }

def print (newline : Bool) (text : String) (r : Run) : Run :=
  let r := { r with session := r.session.print newline text, prints := r.prints + 1 }
  if r.requests.afterPrint r.prints then r.requestStop else r

/-- Drives a job to its end, answering the stop requests on the way. -/
def drive (job : Job Float32) (r : Run) : Run :=
  let stopAfter tick := r.requests.afterTick (r.ticks + tick)
  let (_, d) := r.session.engine.drive stopAfter false job
  let session := { r.session with
    engine := d.engine
    running := r.session.running && d.stops == 0 }
  -- the script has not returned, so none of them is acknowledged
  { r with session, ticks := r.ticks + d.ticks, acks := List.replicate d.stops false ++ r.acks }

def command (text : String) (r : Run) : Except CommandError (Completion Float32) × Run :=
  let (answer, engine) := r.session.engine.execute text
  (answer, { r with session := { r.session with engine } })

def host : Host Run where
  running r := r.session.running
  jump := jump
  evaluate := evaluate
  assign := assign
  print := print
  command := command
  drive := drive

end Run

namespace Session

/-- Runs a script to its end, on a session that has begun. There is no answer if it takes more than
`fuel` steps. -/
def run (s : Session) (fuel : Nat) (source : Source) (vars : Variables)
    (requests : StopRequests) : Option (Termination × Run) :=
  let session := { s with vars }.withRobot ({ · with status := .running })
  let program := Program.ofSource s.settings.tabWidth source
  let start : Run :=
    { session, source := source.exhaust, requests, jumps := [], prints := 0, ticks := 0, acks := [] }
  (Run.host.walkProgram fuel program.body start).map fun (outcome, r) =>
    let session := r.session.withRobot ({ · with status := .stopped })
    (outcome, { r with session := { session with running := false, terminated := true } })

def execute (s : Session) (fuel : Nat) (source : Source) (vars : Variables)
    (requests : StopRequests) : Option (Termination × Run) :=
  s.begin.run fuel source vars requests

end Session

/-! ### Running down -/

namespace Engine

variable {α : Type} [Scalar α]

/-- Rounds until no background job is left, at most `fuel`. `n` of them have gone before. -/
def settle (n : Nat) : Nat → Engine α → Nat × Engine α
  | 0, e => (n, e)
  | fuel + 1, e => if e.background.isEmpty then (n, e) else settle (n + 1) fuel e.round

/-- Runs all background jobs down and counts the rounds. A job ends the round after its last
tick. -/
def drain (e : Engine α) : Nat × Engine α :=
  settle 0 ((e.background.map (·.ticks)).foldl max 0 + 1) e

end Engine

end RobotScript
