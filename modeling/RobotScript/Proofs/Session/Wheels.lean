import RobotScript.Proofs.Engine.Effects
import RobotScript.Proofs.Session.Stopping

/-!
# Wheels

The threads of a session share one pair of wheels. The wheels get their speeds when the script
starts a timed motion and lose them when any timed motion ends, whoever runs it (`Wheel.Change`).
Nothing else that the threads do changes them (`World.step_steers`).
-/

namespace RobotScript

def Wheel.atRest (speeds : Float32 × Float32) : Bool := speeds.1 == 0.0 && speeds.2 == 0.0

/-! ### What statements keep -/

namespace Host

variable {σ : Type} {host : Host σ} {P : σ → Prop}

/-- What is kept by all that a step of a walk asks for, but for jumps, commands and jobs. -/
structure Keeps (host : Host σ) (P : σ → Prop) : Prop where
  evaluate : ∀ e s, P s → P (host.evaluate e s).2
  assign : ∀ name value s, P s → P (host.assign name value s)
  print : ∀ newline text s, P s → P (host.print newline text s)

theorem Keeps.value? (keeps : host.Keeps P) (e : Expr) (line : Nat) {s : σ} (holds : P s) :
    P (host.value? e line s).2 := by
  have read := keeps.evaluate e s holds
  unfold Host.value?
  rcases evaluated : host.evaluate e s with ⟨fault | v, t⟩
  · rw [evaluated] at read
    exact keeps.print _ _ _ read
  · rw [evaluated] at read
    exact read

theorem Keeps.check? (keeps : host.Keeps P) (c : Condition) (line : Nat) {s : σ} (holds : P s) :
    P (host.check? c line s).2 := by
  cases c with
  | error fault => exact keeps.print _ _ _ holds
  | ok e => exact keeps.value? e line holds

theorem Keeps.execute (keeps : host.Keeps P) {stmt : Stmt} (frames : List Frame)
    (quiet : ∀ line text, stmt ≠ .command line text) {s : σ} (holds : P s) :
    P (host.execute stmt frames s).2 := by
  cases stmt with
  | branch line c body otherwise =>
    have checked := keeps.check? c line holds
    rw [Host.execute]
    generalize host.check? c line s = answer at checked ⊢
    rcases answer with ⟨_ | ⟨e, _ | _⟩, t⟩ <;> exact checked
  | loop line c body =>
    have checked := keeps.check? c line holds
    rw [Host.execute]
    generalize host.check? c line s = answer at checked ⊢
    rcases answer with ⟨_ | ⟨e, _ | _⟩, t⟩ <;> exact checked
  | forever line body => exact holds
  | group line closed body =>
    cases closed with
    | true => exact holds
    | false => exact keeps.print _ _ _ holds
  | leave line =>
    rw [Host.execute]
    cases leaveLoop? frames with
    | some frames => exact holds
    | none => exact keeps.print _ _ _ holds
  | again line =>
    rw [Host.execute]
    cases endPass? frames with
    | some frames => exact holds
    | none => exact keeps.print _ _ _ holds
  | strayEnd | strayElse | invalid => exact keeps.print _ _ _ holds
  | set line name e =>
    have read := keeps.value? e line holds
    rw [Host.execute]
    generalize host.value? e line s = answer at read ⊢
    rcases answer with ⟨_ | v, t⟩
    · exact read
    · exact keeps.assign _ _ _ read
  | print line newline e =>
    have read := keeps.value? e line holds
    rw [Host.execute]
    generalize host.value? e line s = answer at read ⊢
    rcases answer with ⟨_ | v, t⟩
    · exact read
    · exact keeps.print _ _ _ read
  | command line text => exact absurd rfl (quiet line text)

theorem Keeps.wrapUp (keeps : host.Keeps P) (jump : ∀ line s, P s → P (host.jump line s))
    (f : Frame) (frames : List Frame) {s : σ} (holds : P s) : P (host.wrapUp f frames s).2 := by
  unfold Host.wrapUp
  cases f.kind with
  | block => exact holds
  | forever line => exact jump line s holds
  | loop line e =>
    have tested : P (host.test? e line (host.jump line s)).2 :=
      keeps.value? e line (jump line s holds)
    dsimp only
    generalize host.test? e line (host.jump line s) = answer at tested ⊢
    rcases answer with ⟨_ | _ | _, t⟩ <;> exact tested

theorem Keeps.step (keeps : host.Keeps P) (jump : ∀ line s, P s → P (host.jump line s))
    {f : Frame} (frames : List Frame)
    (quiet : ∀ line text, f.stmts[f.next]? ≠ some (.command line text)) {s : σ} (holds : P s) :
    P (host.step f frames s).2 := by
  unfold Host.step
  cases next : f.stmts[f.next]? with
  | some stmt =>
    refine keeps.execute _ ?_ (jump _ s holds)
    rintro line text rfl
    exact quiet line text next
  | none => exact keeps.wrapUp jump f frames holds

end Host

/-! ### The wheels of a session -/

namespace Session

def wheels (s : Session) : Float32 × Float32 := s.engine.robot.motion.wheels

variable {vars : Variables} {place place' : Session × Source} {errand : Errand Float32}

theorem scene_keeps (vars : Variables) (speeds : Float32 × Float32) :
    (scene vars).host.Keeps fun s => s.1.1.wheels = speeds ∧ s.2 = .nothing := by
  constructor <;> intros <;> assumption

theorem order_wheels {text : String} {answer : Except CommandError (Errand Float32)}
    (ordered : (scene vars).order text place = (answer, place'))
    (idle : ∀ errand, answer = .ok errand → errand.isMotion = false) :
    place'.1.wheels = place.1.wheels := by
  rw [scene_order] at ordered
  rcases carried : place.1.engine.order text with ⟨done, engine⟩
  rw [carried] at ordered
  cases ordered
  obtain ⟨errand, same, affects⟩ | ⟨-, -, unchanged, -⟩ := Engine.order_cases carried
  · exact affects.wheels_eq (idle errand same)
  · rw [unchanged]

theorem command_wheels {text : String} {line : Nat} {frames frames' : List Frame}
    (executed : (scene vars).host.execute (.command line text) frames (place, .nothing) =
      (frames', place', errand))
    (idle : errand.isMotion = false) : place'.1.wheels = place.1.wheels := by
  rcases ordered : (scene vars).order text place with ⟨fault | left, after⟩
  · have kept : after.1.wheels = place.1.wheels := order_wheels ordered nofun
    simp only [Host.execute, Scene.host, ordered] at executed
    cases executed
    exact kept
  · have same : after = place' ∧ left = errand := by
      cases left <;> simp_all [Host.execute, Scene.host, Errand.completion]
    obtain ⟨rfl, rfl⟩ := same
    refine order_wheels ordered fun errand same => ?_
    cases same
    exact idle

/-- A step of the script turns the wheels only if it leaves a timed motion to be run. -/
theorem step_wheels {f : Frame} {frames frames' : List Frame}
    (stepped : (scene vars).host.step f frames (place, .nothing) = (frames', place', errand))
    (idle : errand.isMotion = false) : place'.1.wheels = place.1.wheels := by
  by_cases command : ∃ line text, f.stmts[f.next]? = some (.command line text)
  · obtain ⟨line, text, command⟩ := command
    rw [Host.step, command] at stepped
    exact command_wheels stepped idle
  · have kept := (scene_keeps vars place.1.wheels).step (s := (place, .nothing))
      (fun _ _ holds => holds) frames (fun line text here => command ⟨line, text, here⟩) ⟨rfl, rfl⟩
    rw [stepped] at kept
    exact kept.1

end Session

/-! ### Timed motions -/

namespace Progress

def job : Progress → Job Float32
  | .looking job | .ticking job | .finishing job => job

def inMotion (p : Progress) : Bool := p.job.manoeuvre.isMotion

/-- Whether the next step ends a timed motion. -/
def endsMotion : Progress → Bool
  | .finishing job => job.manoeuvre.isMotion
  | .looking _ | .ticking _ => false

variable {vars : Variables} {running : Bool} {place place' : Session × Source} {p : Progress}
  {next : Option Progress}

theorem advance_wheels
    (advanced : p.advance (Session.scene vars).toGround running place = (next, place')) :
    (p.endsMotion = true ∧ next = none ∧ place'.1.wheels = (0.0, 0.0)) ∨
      p.endsMotion = false ∧ next.any inMotion = p.inMotion ∧ place'.1.wheels = place.1.wheels := by
  cases p with
  | looking job =>
    refine .inr ⟨rfl, ?_⟩
    rw [advance] at advanced
    split at advanced
    · cases advanced
      exact ⟨rfl, rfl⟩
    · cases advanced
      cases running <;> exact ⟨rfl, rfl⟩
  | ticking job =>
    cases advanced
    exact .inr ⟨rfl, Manoeuvre.tick_isMotion _ _, (Manoeuvre.tick_coasts _ _).wheels_eq⟩
  | finishing job =>
    cases advanced
    have finished : ((Session.scene vars).finish job.manoeuvre place).1.engine.robot =
      job.manoeuvre.finish place.1.engine.robot := rfl
    cases motion : job.manoeuvre.isMotion with
    | true =>
      refine .inl ⟨motion, rfl, ?_⟩
      rw [Session.wheels, finished, Manoeuvre.finish_of_isMotion motion]
      rfl
    | false =>
      refine .inr ⟨motion, motion.symm, ?_⟩
      rw [Session.wheels, finished, Manoeuvre.finish_of_not_isMotion motion]
      rfl

end Progress

def Worker.inMotion : Worker → Bool
  | .counted job => job.manoeuvre.isMotion
  | .working p => p.inMotion
  | .leaving | .gone => false

def Script.inMotion : Script → Bool
  | .counting job _ => job.manoeuvre.isMotion
  | .driving p _ => p.inMotion
  | _ => false

def Script.isReleasing : Script → Bool
  | .releasing .. => true
  | _ => false

theorem Script.afterStep_inMotion (frames : List Frame) (errand : Errand Float32) :
    (Script.afterStep frames errand).inMotion = errand.isMotion := by
  cases errand <;> rfl

theorem Worker.any_inMotion_set {workers : List Worker} {i : Nat} {worker worker' : Worker}
    (found : workers[i]? = some worker) (same : worker'.inMotion = worker.inMotion) :
    (workers.set i worker').any inMotion = workers.any inMotion := by
  induction workers generalizing i with
  | nil => rfl
  | cons first rest ih =>
    cases i with
    | zero =>
      cases found
      rw [List.set_cons_zero, List.any_cons, List.any_cons, same]
    | succ i => rw [List.set_cons_succ, List.any_cons, List.any_cons, ih found]

theorem Crew.start_inMotion {σ : Type} (c : Crew σ) (i : Nat) :
    (c.start i).workers.any Worker.inMotion = c.workers.any Worker.inMotion := by
  unfold start
  split
  · rename_i job found
    have same : (Worker.working (.looking job)).inMotion = (Worker.counted job).inMotion := rfl
    exact Worker.any_inMotion_set found same
  · rfl

/-! ### Changes of the wheels -/

/-- The wheels get their speeds from a timed motion that starts, and are stopped by one that ends,
in the foreground or run by a worker. -/
inductive Wheel.Change where
  | start (left right : Float32)
  | halt (worker? : Option Nat)

def Wheel.Change.speeds : Wheel.Change → Float32 × Float32
  | .start left right => (left, right)
  | .halt _ => (0.0, 0.0)

namespace World

variable {vars : Variables} {body : List Stmt} {w w' : World (Session × Source)}
  {act : Act (Session × Source)}

def wheels (w : World (Session × Source)) : Float32 × Float32 := w.crew.place.1.wheels

/-- Whether a timed motion has been started that has not ended. -/
def inMotion (w : World (Session × Source)) : Bool :=
  w.script.inMotion || w.crew.workers.any Worker.inMotion

def scriptChange? (vars : Variables) (w : World (Session × Source)) : Option Wheel.Change :=
  match w.script with
  | .acting f frames =>
    let (_, place, errand) := (Session.scene vars).host.step f frames (w.crew.place, .nothing)
    if errand.isMotion then some (.start place.1.wheels.1 place.1.wheels.2) else none
  | .driving p _ => if p.endsMotion then some (.halt none) else none
  | _ => none

def workerChange? (w : World (Session × Source)) (i : Nat) : Option Wheel.Change :=
  match w.crew.workers[i]? with
  | some (.working p) => if p.endsMotion then some (.halt (some i)) else none
  | _ => none

def change? (vars : Variables) (w : World (Session × Source)) :
    Act (Session × Source) → Option Wheel.Change
  | .script _ => w.scriptChange? vars
  | .worker i => w.workerChange? i
  | .spawner _ | .call | .caller _ _ | .disturb _ => none

/-- Others leave the wheels alone. -/
def Spares (w : World (Session × Source)) : Act (Session × Source) → Prop
  | .disturb place => place.1.wheels = w.wheels
  | _ => True

/-- What a step does to the wheels and to the motions under way. -/
inductive Steers (w w' : World (Session × Source)) : Option Wheel.Change → Prop
  | coast (wheels : w'.wheels = w.wheels)
    (motion : w.Sound → w.script.isReleasing = false → w'.inMotion = w.inMotion) : Steers w w' none
  | start (motion : w'.inMotion = true) : Steers w w' (some (.start w'.wheels.1 w'.wheels.2))
  | halt (worker? : Option Nat) (still : w'.wheels = (0.0, 0.0)) :
    Steers w w' (some (.halt worker?))

theorem Steers.wheels_eq {change? : Option Wheel.Change} (steers : Steers w w' change?) :
    w'.wheels = change?.elim w.wheels Wheel.Change.speeds := by
  cases steers with
  | coast wheels => exact wheels
  | start => rfl
  | halt _ still => exact still

theorem Steers.of_unmoved (wheels : w'.wheels = w.wheels)
    (script : w'.script.inMotion = w.script.inMotion)
    (workers : w'.crew.workers = w.crew.workers) : Steers w w' none := by
  refine .coast wheels fun _ _ => ?_
  rw [inMotion, inMotion, script, workers]

theorem Steers.afterStep {f : Frame} {frames frames' : List Frame} {place : Session × Source}
    {errand : Errand Float32} (acting : w.script = .acting f frames)
    (stepped : (Session.scene vars).host.step f frames (w.crew.place, .nothing) =
      (frames', place, errand)) :
    Steers w { w.withPlace place with script := .afterStep frames' errand }
      (w.scriptChange? vars) := by
  rw [scriptChange?, acting]
  dsimp only
  rw [stepped]
  cases motion : errand.isMotion with
  | true =>
    refine .start ?_
    rw [inMotion, Script.afterStep_inMotion, motion, Bool.true_or]
  | false =>
    refine .of_unmoved (Session.step_wheels stepped motion) ?_ rfl
    rw [Script.afterStep_inMotion, motion, acting]
    rfl

theorem Steers.driving {p : Progress} {frames : List Frame} {next : Option Progress}
    {place : Session × Source} (driving : w.script = .driving p frames)
    (advanced :
      p.advance (Session.scene vars).toGround w.crew.running w.crew.place = (next, place)) :
    Steers w
      { w.withPlace place with script := next.elim (.looking frames) (.driving · frames) }
      (w.scriptChange? vars) := by
  rw [scriptChange?, driving]
  obtain ⟨ends, -, still⟩ | ⟨goesOn, motion, kept⟩ := Progress.advance_wheels advanced
  · dsimp only
    rw [ends]
    exact .halt none still
  · dsimp only
    rw [goesOn]
    refine .of_unmoved kept ?_ rfl
    rw [driving]
    show (next.elim (Script.looking frames) _).inMotion = p.inMotion
    rw [← motion]
    cases next <;> rfl

theorem stepScript_steers {starts : Bool}
    (step : w.stepScript (Session.scene vars) body starts = some w') :
    Steers w w' (w.scriptChange? vars) := by
  unfold stepScript at step
  cases here : w.script with
  | unborn | ended => rw [here] at step; cases step
  | acting f frames =>
    rw [here] at step
    cases step
    exact .afterStep here rfl
  | driving p frames =>
    rw [here] at step
    cases step
    exact .driving here rfl
  -- no other step touches the wheels, and the motions under way change hands at most
  | looking frames =>
    rw [scriptChange?, here]
    rw [here] at step
    cases frames with
    | nil =>
      cases step
      exact .of_unmoved rfl (by rw [here]; rfl) rfl
    | cons f frames =>
      cases step
      exact .of_unmoved rfl (by rw [here]; cases w.running <;> rfl) rfl
  | arriving f frames =>
    rw [scriptChange?, here]
    rw [here] at step
    cases step
    refine .of_unmoved ?_ (by rw [here]; rfl) rfl
    cases f.line? <;> rfl
  | entering | returned | lowering | signing =>
    rw [scriptChange?, here]
    rw [here] at step
    cases step
    exact .of_unmoved rfl (by rw [here]; rfl) rfl
  | counting job frames =>
    rw [scriptChange?, here]
    rw [here] at step
    cases step
    refine .coast rfl fun _ _ => ?_
    -- the motion was the script's and is the worker's now
    rw [inMotion, inMotion, here]
    show (false || (w.crew.workers ++ [Worker.counted job]).any Worker.inMotion) = _
    rw [List.any_append, Bool.false_or, Bool.or_comm]
    simp [Worker.inMotion, Script.inMotion]
  | starting i frames =>
    rw [scriptChange?, here]
    rw [here] at step
    cases starts with
    | false =>
      cases step
      exact .of_unmoved rfl (by rw [here]; rfl) rfl
    | true =>
      cases step
      refine .coast ?_ fun _ _ => ?_
      · exact congrArg (·.1.wheels) (Crew.start_place w.crew i)
      · rw [inMotion, inMotion, here]
        exact Crew.start_inMotion w.crew i
  | releasing i frames =>
    rw [scriptChange?, here]
    rw [here] at step
    cases step
    exact .coast rfl fun _ kept => by rw [here] at kept; cases kept

theorem stepWorker_steers {i : Nat} {crew : Crew (Session × Source)}
    (step : w.crew.advance (Session.scene vars).toGround i = some crew) :
    Steers w { w with crew := crew } (w.workerChange? i) := by
  unfold Crew.advance at step
  unfold workerChange?
  split at step
  · rename_i p found
    rw [found]
    rcases advanced : p.advance (Session.scene vars).toGround w.crew.running w.crew.place with
      ⟨next, place⟩
    rw [advanced] at step
    cases step
    obtain ⟨ends, -, still⟩ | ⟨goesOn, motion, kept⟩ := Progress.advance_wheels advanced
    · dsimp only
      rw [ends]
      exact .halt (some i) still
    · dsimp only
      rw [goesOn]
      refine .coast kept fun _ _ => ?_
      -- a pause that ends has not been a motion before either
      have same :
          (next.elim Worker.leaving Worker.working).inMotion = (Worker.working p).inMotion := by
        rw [Worker.inMotion, ← motion]
        cases next <;> rfl
      rw [inMotion, inMotion, Worker.any_inMotion_set found same]
  · rename_i found
    rw [found]
    cases step
    refine .coast rfl fun _ _ => ?_
    have same : Worker.gone.inMotion = Worker.leaving.inMotion := rfl
    rw [inMotion, inMotion]
    show (_ || (w.crew.workers.set i .gone).any _) = _
    rw [Worker.any_inMotion_set found same]
  · cases step

theorem stepSpawner_steers {starts : Bool} (step : w.stepSpawner starts = some w') :
    Steers w w' none := by
  obtain ⟨place, workers⟩ := stepSpawner_crew step
  refine .coast (by rw [wheels, wheels, place]) fun sound _ => ?_
  rw [inMotion, inMotion, workers]
  have spawned : w.step (Session.scene []) [] (.spawner starts) = some w' := step
  obtain same | ⟨making, entering⟩ := step_other rfl spawned
  · rw [same]
  · have unborn : w.script = .unborn := sound.unborn (by simp [making]) (by simp [making])
    rw [entering, unborn]
    rfl

theorem stepCaller_steers {i : Nat} {expired : Bool}
    (step : w.stepCaller (Session.scene vars) i expired = some w') : Steers w w' none := by
  obtain ⟨call, -, step⟩ := Option.bind_eq_some_iff.1 step
  obtain ⟨⟨between, phase⟩, called, rfl⟩ := Option.map_eq_some_iff.1 step
  cases here : call.phase with
  | answered => rw [here] at called; cases called
  | clearing | cancelling | silencing | polling | tallying | waiting =>
    rw [here] at called
    cases called
    exact .of_unmoved rfl rfl rfl

theorem step_steers (spares : w.Spares act)
    (step : w.step (Session.scene vars) body act = some w') : Steers w w' (w.change? vars act) := by
  cases act with
  | spawner starts => exact stepSpawner_steers step
  | script starts => exact stepScript_steers step
  | worker i =>
    obtain ⟨crew, advanced, rfl⟩ := Option.map_eq_some_iff.1 step
    exact stepWorker_steers advanced
  | caller i expired => exact stepCaller_steers step
  | call =>
    cases step
    exact .of_unmoved rfl rfl rfl
  | disturb place =>
    cases step
    exact .of_unmoved spares rfl rfl

end World

end RobotScript
