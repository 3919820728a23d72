import RobotScript.Engine.Basic
import RobotScript.Expr.Error
import RobotScript.Script.Stmt

/-!
# Walking a program

A program is walked with a stack of frames, one to each open block. The walker knows its
surroundings only as a `Host`, which says what a jump, an evaluation, a print, a command and a job
do to a state `σ`. A statement that fails is reported on the console and does nothing else.
-/

namespace RobotScript

/-- What a walk acts on. `running` is looked at before every step. -/
structure Host (σ : Type) where
  running : σ → Bool
  /-- Makes a line the current one. -/
  jump : Nat → σ → σ
  evaluate : Expr → σ → Except ExprError Value × σ
  assign : String → Value → σ → σ
  /-- Prints a text, and ends the line if the flag is set. -/
  print : Bool → String → σ → σ
  /-- Hands a command to the engine. -/
  command : String → σ → Except CommandError (Completion Float32) × σ
  /-- Drives a job that a command has left to its end. -/
  drive : Job Float32 → σ → σ

/-- What happens at the end of a frame. A loop goes back to its line. -/
inductive FrameKind where
  | block
  | loop (line : Nat) (condition : Expr)
  | forever (line : Nat)

/-- An open block and the number of its next statement. -/
structure Frame where
  kind : FrameKind
  stmts : List Stmt
  next : Nat

def Frame.new (kind : FrameKind) (stmts : List Stmt) : Frame := ⟨kind, stmts, 0⟩

def Frame.isLoop (f : Frame) : Bool :=
  match f.kind with
  | .block => false
  | _ => true

/-- The frames outside the innermost loop. -/
def leaveLoop? : List Frame → Option (List Frame)
  | [] => none
  | f :: frames => if f.isLoop then some frames else leaveLoop? frames

/-- The frames down to the innermost loop, which is at the end of its pass. -/
def endPass? : List Frame → Option (List Frame)
  | [] => none
  | f :: frames =>
    if f.isLoop then some ({ f with next := f.stmts.length } :: frames) else endPass? frames

inductive Termination where
  | endOfScript
  | stopped
deriving DecidableEq, Repr

namespace Host

variable {σ : Type} (host : Host σ)

/-! ### Reports -/

def report (severity message : String) (line : Nat) : σ → σ :=
  host.print true (severity ++ ": " ++ message ++ ". At line " ++ toString line)

def error (message : String) (line : Nat) : σ → σ := host.report "ERROR" message line

def warning (message : String) (line : Nat) : σ → σ := host.report "WARNING" message line

/-- The value of an expression, or nothing once its fault has been reported. -/
def value? (e : Expr) (line : Nat) (s : σ) : Option Value × σ :=
  match host.evaluate e s with
  | (.ok v, s) => (some v, s)
  | (.error fault, s) => (none, host.error fault.message line s)

/-- Whether a condition holds, or nothing once its fault has been reported. -/
def test? (e : Expr) (line : Nat) (s : σ) : Option Bool × σ :=
  let (v?, s) := host.value? e line s
  (v?.map Value.truthy, s)

/-- The same for a condition that may not have been read. -/
def check? (condition : Condition) (line : Nat) (s : σ) : Option (Expr × Bool) × σ :=
  match condition with
  | .error fault => (none, host.error fault.message line s)
  | .ok e =>
    let (b?, s) := host.test? e line s
    (b?.map (e, ·), s)

/-! ### Steps -/

/-- Executes one statement of the innermost frame. -/
def execute (stmt : Stmt) (frames : List Frame) (s : σ) : List Frame × σ :=
  match stmt with
  | .branch line condition body otherwise =>
    match host.check? condition line s with
    | (some (_, true), s) => (.new .block body :: frames, s)
    | (some (_, false), s) => ((otherwise.map (Frame.new .block)).toList ++ frames, s)
    | (none, s) => (frames, s)
  | .loop line condition body =>
    match host.check? condition line s with
    | (some (e, true), s) => (.new (.loop line e) body :: frames, s)
    | (_, s) => (frames, s)
  | .forever line body => (.new (.forever line) body :: frames, s)
  | .group line closed body =>
    (.new .block body :: frames, if closed then s else host.warning "Expected END" line s)
  | .leave line =>
    match leaveLoop? frames with
    | some frames => (frames, s)
    | none => (frames, host.warning "BREAK outside of a loop" line s)
  | .again line =>
    match endPass? frames with
    | some frames => (frames, s)
    | none => (frames, host.warning "CONTINUE outside of a loop" line s)
  | .strayEnd line => (frames, host.warning "END without BEGIN" line s)
  | .strayElse line => (frames, host.warning "ELSE without IF" line s)
  | .set line name value =>
    match host.value? value line s with
    | (some v, s) => (frames, host.assign name v s)
    | (none, s) => (frames, s)
  | .print line newline value =>
    match host.value? value line s with
    | (some v, s) => (frames, host.print newline v.display s)
    | (none, s) => (frames, s)
  | .command line text =>
    match host.command text s with
    | (.ok .finished, s) => (frames, s)
    | (.ok (.deferred job), s) => (frames, host.drive job s)
    | (.error fault, s) => (frames, host.error fault.message line s)
  | .invalid line fault => (frames, host.error fault.message line s)

/-- What the end of the frame `f` above `frames` leads to. -/
def wrapUp (f : Frame) (frames : List Frame) (s : σ) : List Frame × σ :=
  match f.kind with
  | .block => (frames, s)
  | .loop line condition =>
    match host.test? condition line (host.jump line s) with
    | (some true, s) => ({ f with next := 0 } :: frames, s)
    | (_, s) => (frames, s)
  | .forever line => ({ f with next := 0 } :: frames, host.jump line s)

/-- One step of the innermost frame `f`: its next statement, or its end. -/
def step (f : Frame) (frames : List Frame) (s : σ) : List Frame × σ :=
  match f.stmts[f.next]? with
  | some stmt =>
    host.execute stmt ({ f with next := f.next + 1 } :: frames) (host.jump stmt.line s)
  | none => host.wrapUp f frames s

/-- Walks on for at most `fuel` steps, until no frame is left or the host stops running. -/
def walk : Nat → List Frame → σ → Option (Termination × σ)
  | _, [], s => some (if host.running s then .endOfScript else .stopped, s)
  | 0, _ :: _, _ => none
  | fuel + 1, f :: frames, s =>
    if host.running s then
      let (frames, s) := host.step f frames s
      walk fuel frames s
    else some (.stopped, s)

/-- Walks a whole program. -/
def walkProgram (fuel : Nat) (body : List Stmt) (s : σ) : Option (Termination × σ) :=
  host.walk fuel [.new .block body] s

end Host

end RobotScript
