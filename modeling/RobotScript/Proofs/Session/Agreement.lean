import RobotScript.Proofs.Engine.Rounds
import RobotScript.Session.Threads

/-!
# Steps of a run and of its threads

After the jump to its line a step of a run does what the script of the session's threads does in one
step, and what they are left to do after it: the errand of a command, or a stop request that has
come in with a print.
-/

namespace RobotScript

/-- What threads share besides the place where they act: the cells, the jobs in the background, and
the answers to stop requests, latest first. -/
structure Cells where
  running : Bool
  terminated : Bool
  movers : Bool
  jobs : List (Job Float32)
  acks : List Bool

def Session.withCells (s : Session) (cells : Cells) : Session :=
  { s with
    running := cells.running
    terminated := cells.terminated
    engine := s.engine.withCells cells.movers cells.jobs }

namespace Run

/-- The run is where threads are that act in this place and share these cells. -/
def Stands (r : Run) (cells : Cells) (place : Session × Source) : Prop :=
  r.session = place.1.withCells cells ∧ r.source = place.2 ∧ r.acks = cells.acks

/-! ### A step of the script -/

/-- What a run does after its jump. -/
def still : Host Run := { host with jump := fun _ r => r }

theorem host_step (f : Frame) (frames : List Frame) (r : Run) :
    host.step f frames r = still.step f frames (f.line?.elim r (jump · r)) := by
  unfold Host.step Frame.line?
  cases f.stmts[f.next]? with
  | some stmt => cases stmt <;> rfl
  | none =>
    unfold Host.wrapUp
    cases f.kind <;> rfl

/-- Does what a command has left to be done. -/
def settle : Errand Float32 → Run → Run
  | .nothing, r => r
  | .drive job, r => r.drive job
  | .launch job, r => { r with session := { r.session with engine := r.session.engine.launch job } }

/-- The run has done what the threads still have to: an errand, or a stop request that has come in
with a print. -/
def Owes (r : Run) (cells : Cells) (s : (Session × Source) × Errand Float32) : Prop :=
  ∃ r₀ : Run, r₀.Stands cells s.1 ∧ (r = r₀.settle s.2 ∨ s.2 = .nothing ∧ r = r₀.requestStop)

/-- A question is answered by the threads as by the run. Only the report of a fault leaves more than
the place behind. -/
def Answers {α : Type} (cells : Cells) (a : Option α × (Session × Source) × Errand Float32)
    (b : Option α × Run) : Prop :=
  (∃ x place r, a = (some x, place, .nothing) ∧ b = (some x, r) ∧ r.Stands cells place) ∨
    ∃ s r, a = (none, s) ∧ b = (none, r) ∧ r.Owes cells s

/-- A step is taken by the threads as by the run. -/
def Agrees (cells : Cells) (a : List Frame × (Session × Source) × Errand Float32)
    (b : List Frame × Run) : Prop :=
  a.1 = b.1 ∧ b.2.Owes cells a.2

variable {cells : Cells} {place : Session × Source} {r : Run}

theorem Stands.owes (stands : r.Stands cells place) : r.Owes cells (place, .nothing) :=
  ⟨r, stands, .inl rfl⟩

variable (vars : Variables)

theorem Stands.print (stands : r.Stands cells place) (newline : Bool) (text : String) :
    (still.print newline text r).Owes cells
      ((Session.scene vars).host.print newline text (place, .nothing)) := by
  obtain ⟨session, source⟩ := stands
  have printed : ({ r with
      session := r.session.print newline text, prints := r.prints + 1 } : Run).Stands cells
      ((Session.scene vars).print newline text place) := by
    refine ⟨?_, source⟩
    show r.session.print newline text = _
    rw [session]
    rfl
  refine ⟨_, printed, ?_⟩
  by_cases stopping : r.requests.afterPrint (r.prints + 1) = true
  · exact .inr ⟨rfl, if_pos stopping⟩
  · exact .inl (if_neg stopping)

theorem Stands.assign (stands : r.Stands cells place) (name : String) (value : Value) :
    (still.assign name value r).Owes cells
      ((Session.scene vars).host.assign name value (place, .nothing)) := by
  obtain ⟨session, source⟩ := stands
  refine ⟨still.assign name value r, ⟨?_, source⟩, .inl rfl⟩
  show r.session.assign name value = _
  rw [session]
  rfl

theorem Stands.value? (stands : r.Stands cells place) (e : Expr) (line : Nat) :
    Answers cells ((Session.scene vars).host.value? e line (place, .nothing))
      (still.value? e line r) := by
  obtain ⟨session, source⟩ := stands
  rcases evaluated : place.1.evaluate e with ⟨answer, s⟩
  have stands' : ({ r with session := s.withCells cells } : Run).Stands cells (s, place.2) :=
    ⟨rfl, source⟩
  have here : (Session.scene vars).host.evaluate e (place, .nothing) =
      (answer, (s, place.2), .nothing) := by
    simp only [Scene.host, Session.scene, evaluated]
  have there : still.evaluate e r = (answer, { r with session := s.withCells cells }) := by
    show Run.evaluate e r = _
    have dressed : (place.1.withCells cells).evaluate e =
        ((place.1.evaluate e).1, (place.1.evaluate e).2.withCells cells) := rfl
    rw [Run.evaluate, session, dressed, evaluated]
  unfold Host.value?
  rw [here, there]
  cases answer with
  | ok v => exact .inl ⟨v, _, _, rfl, rfl, stands'⟩
  | error fault => exact .inr ⟨_, _, rfl, rfl, stands'.print vars true _⟩

theorem Stands.test? (stands : r.Stands cells place) (e : Expr) (line : Nat) :
    Answers cells ((Session.scene vars).host.test? e line (place, .nothing))
      (still.test? e line r) := by
  unfold Host.test?
  obtain ⟨v, place', r', here, there, stands'⟩ | ⟨s, r', here, there, owes⟩ :=
    stands.value? vars e line
  · rw [here, there]
    exact .inl ⟨v.truthy, place', r', rfl, rfl, stands'⟩
  · rw [here, there]
    exact .inr ⟨s, r', rfl, rfl, owes⟩

theorem Stands.check? (stands : r.Stands cells place) (condition : Condition) (line : Nat) :
    Answers cells ((Session.scene vars).host.check? condition line (place, .nothing))
      (still.check? condition line r) := by
  cases condition with
  | error fault => exact .inr ⟨_, _, rfl, rfl, stands.print vars true _⟩
  | ok e =>
    unfold Host.check?
    obtain ⟨b, place', r', here, there, stands'⟩ | ⟨s, r', here, there, owes⟩ :=
      stands.test? vars e line
    · simp only [here, there]
      exact .inl ⟨(e, b), place', r', rfl, rfl, stands'⟩
    · simp only [here, there]
      exact .inr ⟨s, r', rfl, rfl, owes⟩

theorem Stands.command (stands : r.Stands cells place) (line : Nat) (text : String)
    (frames : List Frame) :
    Agrees cells ((Session.scene vars).host.execute (.command line text) frames (place, .nothing))
      (still.execute (.command line text) frames r) := by
  obtain ⟨session, source⟩ := stands
  have executed : r.session.engine.execute text =
      Engine.dispatch
        ((place.1.engine.order text).map id (·.withCells cells.movers cells.jobs)) := by
    rw [session, ← Engine.order_withCells]
    rfl
  rcases ordered : place.1.engine.order text with ⟨answer, engine⟩
  rw [ordered] at executed
  -- a run does the errand in the same step: `r₀` is where it was before
  let r₀ : Run := { r with
    session := { r.session with engine := engine.withCells cells.movers cells.jobs } }
  have stands : r₀.Stands cells ({ place.1 with engine }, place.2) := by
    refine ⟨?_, source⟩
    show { r.session with engine := engine.withCells cells.movers cells.jobs } = _
    rw [session]
    rfl
  simp only [Host.execute]
  cases answer with
  | error fault =>
    have here : (Session.scene vars).host.command text (place, .nothing) =
        (.error fault, ({ place.1 with engine }, place.2), .nothing) := by
      simp only [Scene.host, Session.scene_order, ordered]
    have there : still.command text r = (.error fault, r₀) := by
      show Run.command text r = _
      rw [Run.command, executed]
      rfl
    simp only [here, there]
    exact ⟨rfl, stands.print vars true _⟩
  | ok errand =>
    have here : (Session.scene vars).host.command text (place, .nothing) =
        (.ok errand.completion, ({ place.1 with engine }, place.2), errand) := by
      simp only [Scene.host, Session.scene_order, ordered]
    have there : still.command text r = (.ok errand.completion,
        { r with session := { r.session with
          engine := (Engine.dispatch ((.ok errand : Except CommandError _),
            engine.withCells cells.movers cells.jobs)).2 } }) := by
      show Run.command text r = _
      rw [Run.command, executed]
      cases errand <;> rfl
    simp only [here, there]
    cases errand <;> exact ⟨rfl, r₀, stands, .inl rfl⟩

theorem Stands.execute (stands : r.Stands cells place) (stmt : Stmt) (frames : List Frame) :
    Agrees cells ((Session.scene vars).host.execute stmt frames (place, .nothing))
      (still.execute stmt frames r) := by
  cases stmt with
  | branch line condition body otherwise =>
    simp only [Host.execute]
    obtain ⟨⟨e, b⟩, place', r', here, there, stands'⟩ | ⟨s, r', here, there, owes⟩ :=
      stands.check? vars condition line
    · simp only [here, there]
      cases b <;> exact ⟨rfl, stands'.owes⟩
    · simp only [here, there]
      exact ⟨rfl, owes⟩
  | loop line condition body =>
    simp only [Host.execute]
    obtain ⟨⟨e, b⟩, place', r', here, there, stands'⟩ | ⟨s, r', here, there, owes⟩ :=
      stands.check? vars condition line
    · simp only [here, there]
      cases b <;> exact ⟨rfl, stands'.owes⟩
    · simp only [here, there]
      exact ⟨rfl, owes⟩
  | forever line body => exact ⟨rfl, stands.owes⟩
  | group line closed body =>
    cases closed with
    | true => exact ⟨rfl, stands.owes⟩
    | false => exact ⟨rfl, stands.print vars true _⟩
  | leave line =>
    simp only [Host.execute]
    cases leaveLoop? frames with
    | some outer => exact ⟨rfl, stands.owes⟩
    | none => exact ⟨rfl, stands.print vars true _⟩
  | again line =>
    simp only [Host.execute]
    cases endPass? frames with
    | some outer => exact ⟨rfl, stands.owes⟩
    | none => exact ⟨rfl, stands.print vars true _⟩
  | set line name value =>
    simp only [Host.execute]
    obtain ⟨v, place', r', here, there, stands'⟩ | ⟨s, r', here, there, owes⟩ :=
      stands.value? vars value line
    · simp only [here, there]
      exact ⟨rfl, stands'.assign vars name v⟩
    · simp only [here, there]
      exact ⟨rfl, owes⟩
  | print line newline value =>
    simp only [Host.execute]
    obtain ⟨v, place', r', here, there, stands'⟩ | ⟨s, r', here, there, owes⟩ :=
      stands.value? vars value line
    · simp only [here, there]
      exact ⟨rfl, stands'.print vars newline _⟩
    · simp only [here, there]
      exact ⟨rfl, owes⟩
  | command line text => exact stands.command vars line text frames
  | strayEnd | strayElse | invalid => exact ⟨rfl, stands.print vars true _⟩

theorem Stands.step (stands : r.Stands cells place) (f : Frame) (frames : List Frame) :
    Agrees cells ((Session.scene vars).host.step f frames (place, .nothing))
      (still.step f frames r) := by
  unfold Host.step
  cases f.stmts[f.next]? with
  | some stmt => exact stands.execute vars stmt _
  | none =>
    simp only [Host.wrapUp]
    cases f.kind with
    | block => exact ⟨rfl, stands.owes⟩
    | forever line => exact ⟨rfl, stands.owes⟩
    | loop line condition =>
      -- neither of them jumps again
      have jumps : (Session.scene vars).host.jump line (place, .nothing) = (place, .nothing) ∧
          still.jump line r = r := ⟨rfl, rfl⟩
      simp only [jumps]
      obtain ⟨b, place', r', here, there, stands'⟩ | ⟨s, r', here, there, owes⟩ :=
        stands.test? vars condition line
      · simp only [here, there]
        cases b <;> exact ⟨rfl, stands'.owes⟩
      · simp only [here, there]
        exact ⟨rfl, owes⟩

end Run

end RobotScript
