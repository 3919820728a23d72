import RobotScript.Command.Parser
import RobotScript.Engine.Paced
import RobotScript.Engine.Job

/-!
# The command engine

An engine carries out the commands of one robot. What takes no time happens at once; a timed
command either becomes a job for the caller to drive or goes on in the background. Whenever the
foreground lets a tick pass, every background job takes a step.
-/

namespace RobotScript

inductive ToneCall where
  | play (frequency : UInt32) (millis : UInt32)
  | stop
deriving DecidableEq, Repr

structure Engine (α : Type) where
  settings : Settings α
  robot : Robot α
  verbs : VerbTable
  /-- Cleared by a stop; jobs look at it before every tick. -/
  running : Bool
  background : List (Job α)
  /-- What the speaker was told, latest first. -/
  tones : List ToneCall

/-- What a command leaves to be done: nothing, or a job for the caller or for the background. -/
inductive Errand (α : Type) where
  | nothing
  | drive (job : Job α)
  | launch (job : Job α)

/-- What is left to the caller after a command. -/
inductive Completion (α : Type) where
  | finished
  | deferred (job : Job α)

def Errand.completion {α : Type} : Errand α → Completion α
  | .drive job => .deferred job
  | .nothing | .launch _ => .finished

namespace Engine

variable {α : Type} [Scalar α]

def new (robot : Robot α) (settings : Settings α) (verbs : VerbTable) : Engine α :=
  { settings, robot, verbs, running := true, background := [], tones := [] }

def tone (e : Engine α) (call : ToneCall) : Engine α := { e with tones := call :: e.tones }

/-- Cancels all jobs and silences the speaker. -/
def stop (e : Engine α) : Engine α := { e with running := false }.tone .stop

/-- Lets jobs run again. -/
def resume (e : Engine α) : Engine α := { e with running := true }

/-! ### Background jobs -/

def round (e : Engine α) : Engine α :=
  let (background, robot) := Job.round e.running e.background e.robot
  { e with background, robot }

def rounds : Nat → Engine α → Engine α
  | 0, e => e
  | n + 1, e => rounds n e.round

/-- A background job takes its first step at once. -/
def launch (e : Engine α) (t : Job α) : Engine α :=
  let (t?, robot) := t.step e.running e.robot
  { e with background := e.background ++ t?.toList, robot }

/-! ### Commands -/

def seconds (tenths : UInt32) : α := Scalar.ofNat tenths.toNat / 10.0

/-- The tenths of a timing that takes time at all. -/
def duration? (timing : Option Timing) : Option UInt32 :=
  (timing.map (·.tenths)).filter (0 < ·)

def schedule (timing : Option Timing) (t : Job α) : Errand α :=
  if timing.any (·.background) then .launch t else .drive t

def move (e : Engine α) (distance : α) (timing : Option Timing) : Errand α × Engine α :=
  match duration? timing with
  | none =>
    (.nothing, { e with robot := e.robot.update fun k =>
      { k with position := k.position + Vec.along k.heading distance } })
  | some tenths =>
    let ticks := e.settings.ticksForTenths tenths
    let rps := Wheel.rpsNeeded distance (seconds tenths) e.robot.wheelDiameter
    (schedule timing ⟨"MOVE", ticks, .straight (distance / Scalar.ofNat ticks)⟩,
      { e with robot := e.robot.setWheelRps rps rps })

def turn (e : Engine α) (degrees : α) (timing : Option Timing) : Errand α × Engine α :=
  let angle := Scalar.radians degrees
  match duration? timing with
  | none => (.nothing, { e with robot := e.robot.update (·.spin angle) })
  | some tenths =>
    let ticks := e.settings.ticksForTenths tenths
    let travel := angle * e.robot.motion.size / 2.0
    let rps := Wheel.rpsNeeded travel (seconds tenths) e.robot.wheelDiameter
    (schedule timing ⟨"TURN", ticks, .spin (angle / Scalar.ofNat ticks)⟩,
      { e with robot := e.robot.setWheelRps rps (-rps) })

/-- The wheel on the outside of the arc runs faster. Only the sign of the radius picks the side to
turn to. -/
def arc (e : Engine α) (radius degrees : α) (timing : Option Timing) :
    Except HeadingError (Errand α) × Engine α :=
  let k := e.robot.motion
  match Arc.start k.position k.heading radius with
  | .error fault => (.error fault, e)
  | .ok arc =>
    let turned := Scalar.radians (Scalar.abs degrees)
    let sweep := turned * arc.sense
    match duration? timing with
    | none =>
      (.ok .nothing, { e with robot := e.robot.update fun k =>
        { k.spin sweep with position := (arc.advance sweep).position } })
    | some tenths =>
      let ticks := e.settings.ticksForTenths tenths
      let half := k.size / 2.0
      let rps (r : α) := Wheel.rpsNeeded (r * turned) (seconds tenths) e.robot.wheelDiameter
      let outer := rps (Scalar.abs radius + half)
      let inner := rps (Scalar.abs radius - half)
      let robot :=
        if radius < 0.0 then e.robot.setWheelRps inner outer else e.robot.setWheelRps outer inner
      (.ok (schedule timing ⟨"ARC", ticks, .sweep (sweep / Scalar.ofNat ticks) arc⟩),
        { e with robot })

/-- The closest 32-bit count to a number. -/
def wholeCount (x : α) : UInt32 :=
  (min (Scalar.round x).toNat (UInt32.size - 1)).toUInt32

/-- A frequency of zero or less silences the speaker; a tone of no length is not played. -/
def sound (e : Engine α) (frequency : α) (millis : Option α) (wait : Bool) :
    Errand α × Engine α :=
  if frequency ≤ 0.0 then (.nothing, e.tone .stop)
  else
    let length := millis.getD (Scalar.ofNat e.settings.defaultToneMillis.toNat)
    if length ≤ 0.0 then (.nothing, e)
    else
      let millis := wholeCount length
      let e := e.tone (.play (wholeCount frequency) millis)
      (if wait then .drive ⟨"SOUND", e.settings.ticksForMillis millis, .pause⟩ else .nothing, e)

def withRobot (e : Engine α) (change : Robot α → Robot α) : Errand α × Engine α :=
  (.nothing, { e with robot := change e.robot })

/-- Carries a command out up to the errand it leaves, or as far as it gets if it fails. -/
def perform (e : Engine α) : Command α → Except HeadingError (Errand α) × Engine α
  | .move distance timing => (e.move distance timing).map .ok id
  | .turn degrees timing => (e.turn degrees timing).map .ok id
  | .arc radius degrees timing =>
    if degrees == 0.0 then (.ok .nothing, e) else e.arc radius degrees timing
  | .sound frequency millis wait => (e.sound frequency millis wait).map .ok id
  | .delay tenths =>
    (.ok (if tenths == 0 then .nothing
      else .drive ⟨"DELAY", e.settings.ticksForTenths tenths, .pause⟩), e)
  | .pos x y => (e.withRobot (·.setPosition ⟨x, y⟩)).map .ok id
  | .dir degrees => (e.withRobot (·.setHeading (Heading.ofDegrees degrees))).map .ok id
  | .angle degrees => (e.withRobot (·.setHeading (Heading.ofDegrees (360.0 - degrees)))).map .ok id
  | .compass degrees =>
    (e.withRobot (·.setHeading (Heading.ofDegrees (degrees + 270.0)))).map .ok id
  | .paint color => (e.withRobot ({ · with color })).map .ok id
  | .feel mood => (e.withRobot ({ · with mood })).map .ok id

/-- Reads a command and carries it out up to the errand it leaves. -/
def order (e : Engine Float32) (text : String) :
    Except CommandError (Errand Float32) × Engine Float32 :=
  match Command.ofText e.verbs text with
  | .error fault => (.error fault, e)
  | .ok command => (e.perform command).map (·.mapError .heading) id

/-- Sends a job on its way that the caller need not wait for. -/
def dispatch {ε : Type} : Except ε (Errand α) × Engine α → Except ε (Completion α) × Engine α
  | (.ok (.launch t), e) => (.ok .finished, e.launch t)
  | (answer, e) => (answer.map Errand.completion, e)

def apply (e : Engine α) (command : Command α) : Except HeadingError (Completion α) × Engine α :=
  dispatch (e.perform command)

/-- Reads a command and carries it out. -/
def execute (e : Engine Float32) (text : String) :
    Except CommandError (Completion Float32) × Engine Float32 :=
  dispatch (e.order text)

/-! ### Driving -/

/-- An engine in the course of driving a job. -/
structure Driving (α : Type) where
  engine : Engine α
  manoeuvre : Manoeuvre α
  /-- Ticks that have run. -/
  ticks : Nat
  /-- Nanoseconds slept. -/
  slept : Nat
  /-- Stop requests that have come in. -/
  stops : Nat
  /-- Whether to keep the robot's state after each tick. -/
  tracing : Bool
  /-- The states kept, latest first. -/
  trace : List (Kinematics α)

/-- A tick in the foreground and the round of the background after it. A stop request comes in
between when `stopAfter` the tick of that number. -/
def Driving.tick (stopAfter : Nat → Bool) (d : Driving α) : Driving α :=
  let (manoeuvre, robot) := d.manoeuvre.tick d.engine.robot
  let ticks := d.ticks + 1
  let engine := { d.engine with robot }
  let stopping := stopAfter ticks
  { d with
    engine := (if stopping then engine.stop else engine).round
    manoeuvre
    ticks
    stops := if stopping then d.stops + 1 else d.stops
    trace := if d.tracing then robot.motion :: d.trace else d.trace }

def Driving.clock : Clock (Driving α) where
  running d := d.engine.running
  now d := d.slept
  sleep n d := { d with slept := d.slept + n }

/-- A job to be run in the foreground. -/
def paced (stopAfter : Nat → Bool) (t : Job α) : Paced (Driving α) :=
  (Paced.new t.label t.ticks (Driving.tick stopAfter)).onFinish fun d =>
    { d with engine := { d.engine with robot := d.manoeuvre.finish d.engine.robot } }

/-- Runs a job to its end in the foreground. The answer is whether it was completed. -/
def drive (e : Engine α) (stopAfter : Nat → Bool) (tracing : Bool) (t : Job α) :
    Bool × Driving α :=
  (paced stopAfter t).run Driving.clock e.settings.tickInterval
    { engine := e, manoeuvre := t.manoeuvre, ticks := 0, slept := 0, stops := 0, tracing,
      trace := [] }

end Engine

end RobotScript
