import RobotScript.Proofs.Engine.Effects
import RobotScript.Proofs.Session.Nesting
import RobotScript.Session.Threads

/-!
# Failing statements

A statement fails before it has done anything: the console gets one line, random numbers may have
been drawn, and the walk goes on behind it (`World.failing_step_atomic`).
-/

namespace RobotScript

/-- The frames after a step that fails: the walk goes on behind the statement, or behind the loop
that was to be tested again. -/
def Frame.onward (f : Frame) (frames : List Frame) : List Frame :=
  match f.stmts[f.next]? with
  | some _ => { f with next := f.next + 1 } :: frames
  | none => frames

namespace Host

/-! ### What can fail -/

section
variable {σ : Type} (host : Host σ)

def readFault? (e : Expr) (s : σ) : Option String :=
  match (host.evaluate e s).1 with
  | .ok _ => none
  | .error fault => some fault.message

def testFault? (c : Condition) (s : σ) : Option String :=
  match c with
  | .ok e => host.readFault? e s
  | .error fault => some fault.message

def executeFault? (stmt : Stmt) (s : σ) : Option String :=
  match stmt with
  | .branch _ c _ _ | .loop _ c _ => host.testFault? c s
  | .set _ _ e | .print _ _ e => host.readFault? e s
  | .command _ text =>
    match (host.command text s).1 with
    | .ok _ => none
    | .error fault => some fault.message
  | .invalid _ fault => some fault.message
  | .forever .. | .group .. | .leave _ | .again _ | .strayEnd _ | .strayElse _ => none

/-- Why the next step of `f` fails, if it does. At the end of a frame only a loop has something to
test. -/
def fault? (f : Frame) (s : σ) : Option String :=
  match f.stmts[f.next]?, f.kind with
  | some stmt, _ => host.executeFault? stmt (host.jump stmt.line s)
  | none, .loop line e => host.readFault? e (host.jump line s)
  | none, .block | none, .forever _ => none

end

/-! ### Failed steps -/

variable {σ : Type} {host : Host σ} {R : σ → σ → Prop}

/-- A failed evaluation or command changes the state by `R` at most. -/
structure FailsWithin (host : Host σ) (R : σ → σ → Prop) : Prop where
  refl : ∀ s, R s s
  evaluate : ∀ {e s fault t}, host.evaluate e s = (.error fault, t) → R s t
  command : ∀ {text s fault t}, host.command text s = (.error fault, t) → R s t

namespace FailsWithin

variable {s : σ} {message : String}

theorem value? (within : host.FailsWithin R) {e : Expr} (line : Nat)
    (fails : host.readFault? e s = some message) :
    ∃ t, R s t ∧ host.value? e line s = (none, host.error message line t) := by
  rcases evaluated : host.evaluate e s with ⟨fault | v, t⟩
  · rw [readFault?, evaluated] at fails
    cases fails
    exact ⟨t, within.evaluate evaluated, by rw [Host.value?, evaluated]⟩
  · rw [readFault?, evaluated] at fails
    cases fails

theorem check? (within : host.FailsWithin R) {c : Condition} (line : Nat)
    (fails : host.testFault? c s = some message) :
    ∃ t, R s t ∧ host.check? c line s = (none, host.error message line t) := by
  cases c with
  | error fault =>
    cases fails
    exact ⟨s, within.refl s, rfl⟩
  | ok e =>
    obtain ⟨t, drawn, failed⟩ := within.value? line fails
    exact ⟨t, drawn, by rw [Host.check?, test?, failed]; rfl⟩

theorem execute (within : host.FailsWithin R) {stmt : Stmt}
    (fails : host.executeFault? stmt s = some message) (frames : List Frame) :
    ∃ t, R s t ∧ host.execute stmt frames s = (frames, host.error message stmt.line t) := by
  cases stmt with
  | branch line c body otherwise | loop line c body =>
    obtain ⟨t, drawn, failed⟩ := within.check? line fails
    exact ⟨t, drawn, by rw [Host.execute, failed]; rfl⟩
  | set line name e | print line newline e =>
    obtain ⟨t, drawn, failed⟩ := within.value? line fails
    exact ⟨t, drawn, by rw [Host.execute, failed]; rfl⟩
  | command line text =>
    rcases carried : host.command text s with ⟨fault | done, t⟩
    · rw [executeFault?, carried] at fails
      cases fails
      exact ⟨t, within.command carried, by rw [Host.execute, carried]; rfl⟩
    · rw [executeFault?, carried] at fails
      cases fails
  | invalid line fault =>
    cases fails
    exact ⟨s, within.refl s, rfl⟩
  | forever | group | leave | again | strayEnd | strayElse => cases fails

/-- A failed step reports one error, at its line, and goes on behind it. -/
theorem step (within : host.FailsWithin R) {f : Frame} (fails : host.fault? f s = some message)
    (frames : List Frame) :
    ∃ line t, f.line? = some line ∧ R (host.jump line s) t ∧
      host.step f frames s = (f.onward frames, host.error message line t) := by
  rw [fault?] at fails
  cases next : f.stmts[f.next]? with
  | some stmt =>
    rw [next] at fails
    obtain ⟨t, drawn, failed⟩ := within.execute fails ({ f with next := f.next + 1 } :: frames)
    refine ⟨stmt.line, t, by rw [Frame.line?, next], drawn, ?_⟩
    rw [step_next next, failed, Frame.onward, next]
  | none =>
    rw [next] at fails
    cases kind : f.kind with
    | block | forever => rw [kind] at fails; cases fails
    | loop line e =>
      -- the loop is left as if its condition did not hold
      rw [kind] at fails
      obtain ⟨t, drawn, failed⟩ := within.value? line fails
      refine ⟨line, t, by rw [Frame.line?, next, kind], drawn, ?_⟩
      rw [step_end next, Host.wrapUp, kind, Frame.onward, next]
      dsimp only
      rw [test?, failed]
      rfl

end FailsWithin

/-! ### Steps that do not fail -/

variable (host) in
/-- What a statement prints that does not fail: the text it is to print, or a warning. -/
inductive Utters (s : σ) : Stmt → Bool → String → Prop
  | text {line newline e v} (read : (host.evaluate e s).1 = .ok v) :
    Utters s (.print line newline e) newline v.display
  | warning {stmt} (message : String) :
    Utters s stmt true ("WARNING: " ++ message ++ ". At line " ++ toString stmt.line)

theorem logged_value? {e : Expr} {r : σ × List Event} (line : Nat)
    (succeeds : host.readFault? e r.1 = none) :
    ∃ v t, (host.evaluate e r.1).1 = .ok v ∧ host.logged.value? e line r = (some v, t, r.2) := by
  rcases evaluated : host.evaluate e r.1 with ⟨fault | v, t⟩
  · rw [readFault?, evaluated] at succeeds
    cases succeeds
  · exact ⟨v, t, rfl, by simp only [Host.value?, logged, evaluated]⟩

theorem logged_check? {c : Condition} {r : σ × List Event} (line : Nat)
    (succeeds : host.testFault? c r.1 = none) : (host.logged.check? c line r).2.2 = r.2 := by
  cases c with
  | error fault => cases succeeds
  | ok e =>
    obtain ⟨v, t, -, read⟩ := logged_value? line succeeds
    rw [Host.check?, test?, read]

theorem utters_of_warning {stmt : Stmt} {r : σ × List Event} {message text : String}
    {newline : Bool}
    (printed : .print newline text ∈ (host.logged.warning message stmt.line r).2) :
    .print newline text ∈ r.2 ∨ host.Utters r.1 stmt newline text := by
  obtain before | own := List.mem_append.1 printed
  · exact .inl before
  · cases List.mem_singleton.1 own
    exact .inr (.warning message)

theorem utters_of_execute {stmt : Stmt} {r : σ × List Event} {frames : List Frame}
    (succeeds : host.executeFault? stmt r.1 = none) {newline : Bool} {text : String}
    (printed : .print newline text ∈ (host.logged.execute stmt frames r).2.2) :
    .print newline text ∈ r.2 ∨ host.Utters r.1 stmt newline text := by
  cases stmt with
  | branch line c body otherwise =>
    have checked := logged_check? line succeeds
    rw [execute] at printed
    generalize host.logged.check? c line r = answer at checked printed
    rcases answer with ⟨_ | ⟨e, _ | _⟩, t⟩ <;> exact .inl (checked ▸ printed)
  | loop line c body =>
    have checked := logged_check? line succeeds
    rw [execute] at printed
    generalize host.logged.check? c line r = answer at checked printed
    rcases answer with ⟨_ | ⟨e, _ | _⟩, t⟩ <;> exact .inl (checked ▸ printed)
  | forever line body => exact .inl printed
  | group line closed body =>
    cases closed with
    | true => exact .inl printed
    | false => exact utters_of_warning printed
  | leave line =>
    rw [execute] at printed
    cases lands : leaveLoop? frames with
    | some frames => rw [lands] at printed; exact .inl printed
    | none => rw [lands] at printed; exact utters_of_warning printed
  | again line =>
    rw [execute] at printed
    cases lands : endPass? frames with
    | some frames => rw [lands] at printed; exact .inl printed
    | none => rw [lands] at printed; exact utters_of_warning printed
  | strayEnd | strayElse => exact utters_of_warning printed
  | set line name e =>
    obtain ⟨v, t, -, read⟩ := logged_value? line succeeds
    rw [execute, read] at printed
    obtain before | own := List.mem_append.1 printed
    · exact .inl before
    · cases List.mem_singleton.1 own
  | print line newline' e =>
    obtain ⟨v, t, value, read⟩ := logged_value? line succeeds
    rw [execute, read] at printed
    obtain before | own := List.mem_append.1 printed
    · exact .inl before
    · cases List.mem_singleton.1 own
      exact .inr (.text value)
  | command line text' =>
    rcases carried : host.command text' r.1 with ⟨fault | done, t⟩
    · rw [executeFault?, carried] at succeeds
      cases succeeds
    · cases done <;> simp [execute, logged, carried] at printed <;> exact .inl printed
  | invalid line fault => cases succeeds

/-- Only the statement of a step prints, and not to report an error unless it fails. -/
theorem utters_of_asks {f : Frame} {frames : List Frame} {s : σ} (succeeds : host.fault? f s = none)
    {newline : Bool} {text : String} (printed : .print newline text ∈ host.asks f frames s) :
    ∃ stmt, f.stmts[f.next]? = some stmt ∧
      host.Utters (host.jump stmt.line s) stmt newline text := by
  rw [fault?] at succeeds
  cases next : f.stmts[f.next]? with
  | some stmt =>
    rw [next] at succeeds
    rw [asks, step_next next] at printed
    obtain before | uttered := utters_of_execute succeeds printed
    · cases List.mem_singleton.1 before
    · exact ⟨stmt, rfl, uttered⟩
  | none =>
    rw [next] at succeeds
    rw [asks, step_end next, wrapUp] at printed
    cases kind : f.kind with
    | block => rw [kind] at printed; cases printed
    | forever line =>
      rw [kind] at printed
      cases List.mem_singleton.1 printed
    | loop line e =>
      rw [kind] at succeeds printed
      obtain ⟨v, t, -, read⟩ := logged_value? (r := host.logged.jump line (s, [])) line succeeds
      dsimp only at printed
      rw [test?, read] at printed
      cases holds : v.truthy <;> simp [holds, logged] at printed

end Host

/-! ### Commands -/

theorem Engine.execute_error {e : Engine Float32} {text : String} {fault : CommandError}
    (failed : (e.execute text).1 = .error fault) :
    e.order text = (.error fault, e) ∧ (e.execute text).2 = e ∧
      (Command.ofText e.verbs text = .error fault ∨ ∃ radius degrees timing reason,
        Command.ofText e.verbs text = .ok (.arc radius degrees timing) ∧
        Arc.start e.robot.motion.position e.robot.motion.heading radius = .error reason ∧
        fault = .heading reason) := by
  unfold execute at failed ⊢
  rcases ordered : e.order text with ⟨answer, e'⟩
  rw [ordered] at failed
  obtain ⟨errand, rfl, -⟩ | ⟨fault', rfl, rfl, reason⟩ := order_cases ordered
  · cases errand <;> cases failed
  · cases failed
    exact ⟨rfl, rfl, reason⟩

/-! ### Sessions -/

theorem Session.scene_order_error {vars : Variables} {text : String} {fault : CommandError}
    {place place' : Session × Source}
    (failed : (Session.scene vars).order text place = (.error fault, place')) : place' = place := by
  rw [scene_order] at failed
  rcases ordered : place.1.engine.order text with ⟨answer, engine⟩
  rw [ordered] at failed
  cases failed
  obtain ⟨errand, answered, -⟩ | ⟨-, -, rfl, -⟩ := Engine.order_cases ordered
  · cases answered
  · rfl

/-- A failed evaluation or command draws random numbers at most. -/
theorem Session.scene_failsWithin (vars : Variables) :
    (Session.scene vars).host.FailsWithin fun s t =>
      ∃ random, t = (({ s.1.1 with random }, s.1.2), s.2) := by
  refine ⟨fun s => ⟨s.1.1.random, rfl⟩, ?_, ?_⟩
  · intro e s fault t evaluated
    exact ⟨_, (congrArg Prod.snd evaluated).symm⟩
  · intro text s fault t commanded
    rcases ordered : (Session.scene vars).order text s.1 with ⟨fault' | errand, place⟩
    · simp only [Scene.host, ordered] at commanded
      cases commanded
      rw [scene_order_error ordered]
      exact ⟨s.1.1.random, rfl⟩
    · simp only [Scene.host, ordered] at commanded
      cases commanded

namespace World

variable {vars : Variables} {body : List Stmt} {w : World (Session × Source)}

/-- A step that fails reports its one error on the console and otherwise draws random numbers at
most: it leaves all else as it was and goes on with the next statement, or behind the loop that it
was to test again. A step that does not fail reports no error. A command that cannot be carried out
changes nothing. -/
theorem failing_step_atomic {f : Frame} {frames : List Frame} {starts : Bool}
    (acting : w.script = .acting f frames) :
    (∀ message, (Session.scene vars).host.fault? f (w.crew.place, .nothing) = some message →
      ∃ line random, f.line? = some line ∧
        w.stepScript (Session.scene vars) body starts = some
          { w.withPlace
            ({ w.crew.place.1 with
              random
              console := w.crew.place.1.console.println w.crew.place.1.robot.name
                ("ERROR: " ++ message ++ ". At line " ++ toString line) }, w.crew.place.2) with
            script := .looking (f.onward frames) }) ∧
    ((Session.scene vars).host.fault? f (w.crew.place, .nothing) = none → ∀ newline text,
      .print newline text ∈ (Session.scene vars).host.asks f frames (w.crew.place, .nothing) →
      ∃ stmt, f.stmts[f.next]? = some stmt ∧
        (Session.scene vars).host.Utters (w.crew.place, .nothing) stmt newline text) ∧
    ∀ text fault, (w.crew.place.1.engine.execute text).1 = .error fault →
      (w.crew.place.1.engine.execute text).2 = w.crew.place.1.engine ∧
      (Session.scene vars).order text w.crew.place = (.error fault, w.crew.place) ∧
      (Command.ofText w.crew.place.1.engine.verbs text = .error fault ∨
        ∃ radius degrees timing reason,
          Command.ofText w.crew.place.1.engine.verbs text = .ok (.arc radius degrees timing) ∧
          Arc.start w.crew.place.1.robot.motion.position w.crew.place.1.robot.motion.heading
            radius = .error reason ∧
          fault = .heading reason) := by
  refine ⟨?_, ?_, ?_⟩
  · intro message fails
    obtain ⟨line, t, goesTo, ⟨random, rfl⟩, stepped⟩ :=
      (Session.scene_failsWithin vars).step fails frames
    refine ⟨line, random, goesTo, ?_⟩
    rw [stepScript, acting]
    dsimp only
    rw [stepped]
    rfl
  · intro succeeds newline text printed
    exact Host.utters_of_asks succeeds printed
  · intro text fault failed
    obtain ⟨ordered, unchanged, reason⟩ := Engine.execute_error failed
    refine ⟨unchanged, ?_, reason⟩
    rw [Session.scene_order, ordered]

end World

/-- A loop is at the end of a pass and tests a variable that nobody has set. -/
def World.retesting : World (Session × Source) :=
  { Run.idle.session.world (.ofLines []) with
    script := .acting ⟨.loop 3 (.variable "go"), [], 0⟩ [⟨.block, [.strayEnd 4], 0⟩] }

theorem failing_step_atomic_retesting :
    ∃ w, World.retesting.stepScript (Session.scene []) [] true = some w ∧
      w.script = .looking [⟨.block, [.strayEnd 4], 0⟩] ∧
      w.crew.place.1.engine = World.retesting.crew.place.1.engine ∧
      w.crew.place.1.console.lines = ["Rover: ERROR: `go` is not defined. At line 3"] := by
  have fails : (Session.scene []).host.fault? ⟨.loop 3 (.variable "go"), [], 0⟩
      (World.retesting.crew.place, .nothing) = some "`go` is not defined" := rfl
  obtain ⟨line, random, goesTo, stepped⟩ := (World.failing_step_atomic rfl).1 _ fails
  cases goesTo
  exact ⟨_, stepped, rfl, rfl, rfl⟩

end RobotScript
