import RobotScript.Proofs.Session.Agreement
import RobotScript.Proofs.Session.Interleaving

/-!
# Runs as interleavings

A run of a session answers stop requests where they come in and gives the background a round after
every tick of the foreground. It is one of the interleavings of the session's threads.
-/

namespace RobotScript

/-! ### Threads -/

namespace World

variable {vars : Variables} {body : List Stmt} {w w' : World (Session × Source)} {r : Run}

/-- Steps of the threads lead from one world to the other. -/
def Leads (vars : Variables) (body : List Stmt) (w w' : World (Session × Source)) : Prop :=
  ∃ acts, w.run (Session.scene vars) body acts = some w'

theorem Leads.refl : Leads vars body w w := ⟨[], rfl⟩

theorem Leads.trans {w'' : World (Session × Source)} (first : Leads vars body w w')
    (second : Leads vars body w' w'') : Leads vars body w w'' := by
  obtain ⟨before, reached⟩ := first
  obtain ⟨after, ran⟩ := second
  refine ⟨before ++ after, ?_⟩
  rw [run_append, reached]
  exact ran

theorem Leads.single (act : Act (Session × Source))
    (step : w.step (Session.scene vars) body act = some w') : Leads vars body w w' :=
  ⟨[act], by rw [run, step]; rfl⟩

theorem Leads.works {c : Crew (Session × Source)}
    (works : Crew.Works (Session.scene vars).toGround w.crew c) :
    Leads vars body w { w with crew := c } := by
  induction works with
  | refl => exact .refl
  | tail _ step ih =>
    obtain ⟨i, advanced⟩ := step
    refine ih.trans (.single (.worker i) ?_)
    rw [World.step, advanced]
    rfl

/-- Puts a robot in the place of the session's. -/
def steer (robot : Robot Float32) (place : Session × Source) : Session × Source :=
  ({ place.1 with engine := { place.1.engine with robot } }, place.2)

theorem scene_carries (vars : Variables) :
    (Session.scene vars).toGround.Carries (·.1.engine.robot) steer :=
  ⟨fun _ _ => rfl, fun _ _ => rfl, fun _ _ => rfl, fun _ _ _ => rfl, fun _ => rfl⟩

/-- The world of a spawned session is where the run is. -/
structure Mirrors (w : World (Session × Source)) (r : Run) : Prop where
  stands : ∃ jobs, w.crew.Rests jobs ∧
    r.Stands ⟨w.running, w.terminated, w.crew.running, jobs, r.acks⟩ w.crew.place
  returned : w.spawner = .returned
  unsigned : w.terminated = false
  answers : w.calls.map (·.phase) = (r.acks.map .answered).reverse

theorem Mirrors.withScript (mirrors : w.Mirrors r) (script : Script) :
    { w with script := script }.Mirrors r :=
  ⟨mirrors.stands, mirrors.returned, mirrors.unsigned, mirrors.answers⟩

theorem Mirrors.flags (mirrors : w.Mirrors r) :
    r.session.running = w.running ∧ r.session.terminated = false ∧
      r.session.engine.running = w.crew.running ∧
      r.session.engine.robot = w.crew.place.1.engine.robot := by
  obtain ⟨⟨jobs, rests, session, source, -⟩, returned, unsigned, answers⟩ := mirrors
  rw [session]
  exact ⟨rfl, unsigned, rfl, rfl⟩

/-- The script or a job of its moves the robot. -/
theorem Mirrors.steered (mirrors : w.Mirrors r) (robot : Robot Float32) :
    (w.withPlace (steer robot w.crew.place)).Mirrors
      { r with session := { r.session with engine := { r.session.engine with robot } } } := by
  obtain ⟨⟨jobs, rests, session, source, -⟩, returned, unsigned, answers⟩ := mirrors
  refine ⟨⟨jobs, rests, ?_, source, rfl⟩, returned, unsigned, answers⟩
  show { r.session with engine := { r.session.engine with robot } } = _
  rw [session]
  rfl

section
variable (vars body)

/-- A stop request is a call that clears the flags and finds the script still at work. -/
theorem Mirrors.requestStop (mirrors : w.Mirrors r) :
    ∃ w', Leads vars body w w' ∧ w'.Mirrors r.requestStop ∧ w'.script = w.script := by
  have unsigned' := mirrors.flags.2.1
  obtain ⟨⟨jobs, rests, session, source, -⟩, returned, unsigned, answers⟩ := mirrors
  let place := (Session.scene vars).silence w.crew.place
  let w' : World (Session × Source) := { w with
    running := false
    crew := { w.crew with running := false, place := place }
    calls := w.calls ++ [⟨true, .answered false⟩] }
  have acks : r.requestStop.acks = false :: r.acks := by
    show (r.session.terminated && _) :: r.acks = _
    rw [unsigned', Bool.false_and]
  refine ⟨w', ⟨.call :: List.replicate 5 (.caller w.calls.length true), ?_⟩, ?_, rfl⟩
  · simp [w', place, run, step, stepCaller, stepCall, withPlace, returned, unsigned, List.replicate]
  · refine ⟨⟨jobs, rests, ?_, source, rfl⟩, returned, unsigned, ?_⟩
    · show r.session.requestStop = _
      rw [session]
      rfl
    · rw [acks, List.map_append, answers]
      simp

/-- The background takes a round. -/
theorem Mirrors.round (mirrors : w.Mirrors r) :
    ∃ w', Leads vars body w w' ∧
      w'.Mirrors { r with session := { r.session with engine := r.session.engine.round } } ∧
      w'.script = w.script := by
  obtain ⟨⟨jobs, rests, session, source, -⟩, returned, unsigned, answers⟩ := mirrors
  obtain ⟨c, works, running, rests, place⟩ := rests.round (scene_carries vars)
  refine ⟨{ w with crew := c }, .works works, ?_, rfl⟩
  refine ⟨⟨_, rests, ?_, ?_, rfl⟩, returned, unsigned, answers⟩
  · show { r.session with engine := r.session.engine.round } = c.place.1.withCells _
    rw [session, place, running]
    rfl
  · rw [place]
    exact source

/-- A job is sent to the background and takes its first turn. -/
theorem Mirrors.launch (mirrors : w.Mirrors r) {job : Job Float32} {frames : List Frame}
    (counting : w.script = .counting job frames) :
    ∃ w', Leads vars body w w' ∧ w'.Mirrors (r.settle (.launch job)) ∧
      w'.script = .looking frames := by
  obtain ⟨⟨jobs, rests, session, source, -⟩, returned, unsigned, answers⟩ := mirrors
  obtain ⟨c, works, running, rests, place⟩ := rests.launch (scene_carries vars) job
  have started : Leads vars body w { w with
      crew := (w.crew.register job).start w.crew.workers.length, script := .looking frames } := by
    refine ⟨[.script true, .script true], ?_⟩
    simp [run, step, stepScript, counting]
  refine ⟨_, started.trans (.works works), ⟨⟨_, rests, ?_, ?_, rfl⟩, returned, unsigned, answers⟩,
    rfl⟩
  · show { r.session with engine := r.session.engine.launch job } = c.place.1.withCells _
    rw [session, place, running]
    rfl
  · show r.source = c.place.2
    rw [place]
    exact source

end

end World

/-! ### Driving -/

namespace Run

/-- The run once it has driven a job as far as this. -/
def after (r : Run) (d : Engine.Driving Float32) : Run :=
  { r with
    session := { r.session with
      engine := d.engine
      running := r.session.running && d.stops == 0 }
    ticks := r.ticks + d.ticks
    acks := List.replicate d.stops false ++ r.acks }

/-- The ticks after which a stop request comes in, by their numbers in the job. -/
def stopAfter (r : Run) (tick : Nat) : Bool := r.requests.afterTick (r.ticks + tick)

theorem after_rest (r : Run) (deadline : Nat) (d : Engine.Driving Float32) :
    r.after (Paced.rest Engine.Driving.clock deadline d) = r.after d ∧
      (Paced.rest Engine.Driving.clock deadline d).manoeuvre = d.manoeuvre := by
  simp only [Paced.rest]
  split <;> exact ⟨rfl, rfl⟩

theorem after_stop {r : Run} (unsigned : r.session.terminated = false)
    (d : Engine.Driving Float32) :
    (r.after d).requestStop = r.after { d with engine := d.engine.stop, stops := d.stops + 1 } := by
  have unacknowledged : (r.after d).session.requestStop.acknowledges = false := by
    show (r.session.terminated && _) = false
    rw [unsigned, Bool.false_and]
  have cleared : (r.session.running && (d.stops + 1 == 0)) = false := by simp
  simp only [requestStop, unacknowledged]
  simp only [after, cleared, List.replicate_succ]
  rfl

end Run

namespace World

variable {w : World (Session × Source)} {r : Run} {frames : List Frame} {label : String}
  {d : Engine.Driving Float32} (vars : Variables) (body : List Stmt)

theorem Leads.driving {p : Progress} {next : Option Progress} {place : Session × Source}
    (script : w.script = .driving p frames)
    (advanced : p.advance (Session.scene vars).toGround w.crew.running w.crew.place =
      (next, place)) :
    Leads vars body w
      { w.withPlace place with script := next.elim (.looking frames) (.driving · frames) } := by
  refine .single (.script true) ?_
  rw [step, stepScript, script]
  simp only [advanced]

/-- A tick of the foreground, the stop request that may come in after it, and a round. -/
theorem Mirrors.tick (mirrors : w.Mirrors (r.after d)) {ticks : Nat}
    (script : w.script = .driving (.ticking ⟨label, ticks, d.manoeuvre⟩) frames) :
    ∃ w', Leads vars body w w' ∧ w'.Mirrors (r.after (d.tick r.stopAfter)) ∧
      w'.script = .driving (.looking ⟨label, ticks, (d.tick r.stopAfter).manoeuvre⟩) frames := by
  obtain ⟨-, unsigned, -, robots⟩ := mirrors.flags
  rcases ticked : d.manoeuvre.tick d.engine.robot with ⟨manoeuvre, robot⟩
  have advanced : (Progress.ticking ⟨label, ticks, d.manoeuvre⟩).advance
      (Session.scene vars).toGround w.crew.running w.crew.place =
      (some (.looking ⟨label, ticks, manoeuvre⟩), steer robot w.crew.place) := by
    have ticked' : d.manoeuvre.tick w.crew.place.1.engine.robot = (manoeuvre, robot) := by
      rw [← robots]
      exact ticked
    rw [Progress.advance, (scene_carries vars).tick, ticked']
  let d₁ := { d with engine := { d.engine with robot }, manoeuvre, ticks := d.ticks + 1 }
  let w₁ := { w.withPlace (steer robot w.crew.place) with
    script := .driving (.looking ⟨label, ticks, manoeuvre⟩) frames }
  have first : Leads vars body w w₁ := Leads.driving vars body script advanced
  have mirrors₁ : w₁.Mirrors (r.after d₁) := by
    have steered := (mirrors.steered robot).withScript
      (.driving (.looking ⟨label, ticks, manoeuvre⟩) frames)
    exact ⟨steered.stands, steered.returned, steered.unsigned, steered.answers⟩
  -- a request that comes in with the tick is answered before the round
  by_cases stopping : r.stopAfter (d.ticks + 1) = true
  · obtain ⟨w₂, second, mirrors₂, same₂⟩ := mirrors₁.requestStop vars body
    rw [Run.after_stop (r := r) unsigned] at mirrors₂
    obtain ⟨w₃, third, mirrors₃, same₃⟩ := mirrors₂.round vars body
    refine ⟨w₃, (first.trans second).trans third, ?_, ?_⟩
    · simp only [Engine.Driving.tick, ticked, stopping]
      exact mirrors₃
    · simp only [Engine.Driving.tick, ticked]
      exact same₃.trans same₂
  · obtain ⟨w₃, third, mirrors₃, same₃⟩ := mirrors₁.round vars body
    refine ⟨w₃, first.trans third, ?_, ?_⟩
    · simp only [Engine.Driving.tick, ticked, stopping]
      exact mirrors₃
    · simp only [Engine.Driving.tick, ticked]
      exact same₃

theorem Mirrors.ticking (deadline interval : Nat) {n : Nat} (mirrors : w.Mirrors (r.after d))
    (script : w.script = .driving (.looking ⟨label, n, d.manoeuvre⟩) frames) :
    ∃ w' d' ticks, Leads vars body w w' ∧ w'.Mirrors (r.after d') ∧
      (Paced.ticking Engine.Driving.clock interval (Engine.Driving.tick r.stopAfter) n deadline d).2 =
        d' ∧
      w'.script = .driving (.finishing ⟨label, ticks, d'.manoeuvre⟩) frames := by
  induction n generalizing d deadline w with
  | zero =>
    have looked := Leads.driving vars body script rfl
    exact ⟨_, d, 0, looked, mirrors.withScript _, rfl, rfl⟩
  | succ n ih =>
    obtain ⟨-, -, movers, -⟩ := mirrors.flags
    have flag : Engine.Driving.clock.running d = w.crew.running := movers
    rw [Paced.ticking, flag]
    cases set : w.crew.running with
    | false =>
      have stopped : (Progress.looking ⟨label, n + 1, d.manoeuvre⟩).advance
          (Session.scene vars).toGround w.crew.running w.crew.place =
          (some (.finishing ⟨label, n + 1, d.manoeuvre⟩), w.crew.place) := by
        rw [set]
        rfl
      have looked := Leads.driving vars body script stopped
      exact ⟨_, d, n + 1, looked, mirrors.withScript _, rfl, rfl⟩
    | true =>
      have passed : (Progress.looking ⟨label, n + 1, d.manoeuvre⟩).advance
          (Session.scene vars).toGround w.crew.running w.crew.place =
          (some (.ticking ⟨label, n, d.manoeuvre⟩), w.crew.place) := by
        rw [set]
        rfl
      have looked := Leads.driving vars body script passed
      obtain ⟨w₁, ticked, mirrors₁, script₁⟩ := Mirrors.tick vars body (mirrors.withScript _) rfl
      have rested := r.after_rest (deadline + interval) (d.tick r.stopAfter)
      rw [← rested.1] at mirrors₁
      rw [← rested.2] at script₁
      obtain ⟨w₂, d', ticks, onward, mirrors₂, same, script₂⟩ := ih _ mirrors₁ script₁
      exact ⟨w₂, d', ticks, (looked.trans ticked).trans onward, mirrors₂, same, script₂⟩

theorem Mirrors.drive (mirrors : w.Mirrors r) {job : Job Float32}
    (script : w.script = .driving (.looking job) frames) :
    ∃ w', Leads vars body w w' ∧ w'.Mirrors (r.drive job) ∧ w'.script = .looking frames := by
  let d₀ : Engine.Driving Float32 :=
    { engine := r.session.engine, manoeuvre := job.manoeuvre, ticks := 0, slept := 0, stops := 0,
      tracing := false, trace := [] }
  have start : r.after d₀ = r := by simp [Run.after, d₀]
  rw [← start] at mirrors
  obtain ⟨w₁, d, ticks, ticked, mirrors₁, same, script₁⟩ :=
    Mirrors.ticking vars body 0 r.session.engine.settings.tickInterval mirrors script
  obtain ⟨-, -, -, robots⟩ := mirrors₁.flags
  have finished : (Progress.finishing ⟨job.label, ticks, d.manoeuvre⟩).advance
      (Session.scene vars).toGround w₁.crew.running w₁.crew.place =
      (none, steer (d.manoeuvre.finish d.engine.robot) w₁.crew.place) := by
    have robots' : d.engine.robot = w₁.crew.place.1.engine.robot := robots
    rw [Progress.advance, (scene_carries vars).finish, robots']
  have driven : r.drive job = r.after { d with
      engine := { d.engine with robot := d.manoeuvre.finish d.engine.robot } } := by
    rw [← same]
    rfl
  rw [driven]
  exact ⟨_, ticked.trans (Leads.driving vars body script₁ finished),
    (mirrors₁.steered _).withScript _, rfl⟩

/-! ### Walking -/

theorem Mirrors.settle (mirrors : w.Mirrors r) {errand : Errand Float32}
    (script : w.script = .afterStep frames errand) :
    ∃ w', Leads vars body w w' ∧ w'.Mirrors (r.settle errand) ∧ w'.script = .looking frames := by
  cases errand with
  | nothing => exact ⟨w, .refl, mirrors, script⟩
  | drive job => exact mirrors.drive vars body script
  | launch job => exact mirrors.launch vars body script

theorem Mirrors.jump (mirrors : w.Mirrors r) (line : Nat) :
    ∃ w', Leads vars body (w.withPlace ((Session.scene vars).jump line w.crew.place)) w' ∧
      w'.Mirrors (r.jump line) ∧ w'.script = w.script := by
  obtain ⟨⟨jobs, rests, session, source, acks⟩, returned, unsigned, answers⟩ := mirrors
  have jumped : (w.withPlace ((Session.scene vars).jump line w.crew.place)).Mirrors
      { r with source := r.source.jump line, jumps := line :: r.jumps } := by
    refine ⟨⟨jobs, rests, session, ?_, acks⟩, returned, unsigned, answers⟩
    show r.source.jump line = _
    rw [source]
    rfl
  by_cases stopping : r.requests.atJump (r.jumps.length + 1) = true
  · obtain ⟨w', leads, mirrors, same⟩ := jumped.requestStop vars body
    refine ⟨w', leads, ?_, same⟩
    simp only [Run.jump, List.length_cons, stopping]
    exact mirrors
  · refine ⟨_, .refl, ?_, rfl⟩
    simp only [Run.jump, List.length_cons, stopping]
    exact jumped

theorem Mirrors.arrive (mirrors : w.Mirrors r) {f : Frame}
    (script : w.script = .arriving f frames) :
    ∃ w', Leads vars body w w' ∧ w'.Mirrors (f.line?.elim r (r.jump ·)) ∧
      w'.script = .acting f frames := by
  have first : Leads vars body w { w.withPlace (f.line?.elim w.crew.place
      ((Session.scene vars).jump · w.crew.place)) with script := .acting f frames } := by
    refine .single (.script true) ?_
    rw [step, stepScript, script]
  cases goes : f.line? with
  | none =>
    rw [goes] at first
    exact ⟨_, first, mirrors.withScript _, rfl⟩
  | some line =>
    rw [goes] at first
    obtain ⟨w', leads, mirrors', same⟩ := (mirrors.withScript (.acting f frames)).jump vars body line
    exact ⟨w', first.trans leads, mirrors', same⟩

theorem Mirrors.act (mirrors : w.Mirrors r) {f : Frame} (script : w.script = .acting f frames) :
    ∃ w', Leads vars body w w' ∧ w'.Mirrors (Run.still.step f frames r).2 ∧
      w'.script = .looking (Run.still.step f frames r).1 := by
  obtain ⟨⟨jobs, rests, stands⟩, returned, unsigned, answers⟩ := mirrors
  obtain ⟨same, r₀, ⟨session, source, acks⟩, owed⟩ := stands.step vars f frames
  rcases stepped : (Session.scene vars).host.step f frames (w.crew.place, .nothing) with
    ⟨frames', place, errand⟩
  rw [stepped] at same session source owed
  let w₁ := { w.withPlace place with script := .afterStep frames' errand }
  have first : Leads vars body w w₁ := by
    refine .single (.script true) ?_
    rw [step, stepScript, script]
    simp only [stepped, w₁]
  have mirrors₁ : w₁.Mirrors r₀ := by
    refine ⟨⟨jobs, rests, session, source, rfl⟩, returned, unsigned, ?_⟩
    rw [acks]
    exact answers
  rw [← same]
  obtain settled | ⟨nothing, stopped⟩ := owed
  · rw [settled]
    obtain ⟨w', leads, mirrors', script'⟩ := mirrors₁.settle vars body rfl
    exact ⟨w', first.trans leads, mirrors', script'⟩
  · rw [stopped]
    obtain ⟨w', leads, mirrors', script'⟩ := mirrors₁.requestStop vars body
    refine ⟨w', first.trans leads, mirrors', ?_⟩
    rw [script']
    show Script.afterStep frames' errand = _
    rw [show errand = .nothing from nothing]
    rfl

theorem Mirrors.last_look (mirrors : w.Mirrors r) (script : w.script = .looking []) :
    ∃ w', Leads vars body w w' ∧ w'.Mirrors r ∧
      w'.script = .returned (if Run.host.running r then .endOfScript else .stopped) := by
  have flag : Run.host.running r = w.running := mirrors.flags.1
  have looked : Leads vars body w { w with
      script := .returned (if w.running then .endOfScript else .stopped) } := by
    refine .single (.script true) ?_
    rw [step, stepScript, script]
  rw [flag]
  exact ⟨_, looked, mirrors.withScript _, rfl⟩

theorem Mirrors.walk (mirrors : w.Mirrors r) {fuel : Nat} {outcome : Termination} {r' : Run}
    (script : w.script = .looking frames)
    (walked : Run.host.walk fuel frames r = some (outcome, r')) :
    ∃ w', Leads vars body w w' ∧ w'.Mirrors r' ∧ w'.script = .returned outcome := by
  -- one pass of the walk is three steps of the script: the look, the jump and what comes after it
  induction fuel generalizing w r frames with
  | zero =>
    cases frames with
    | nil =>
      cases walked
      exact mirrors.last_look vars body script
    | cons f frames => cases walked
  | succ fuel ih =>
    have flag : Run.host.running r = w.running := mirrors.flags.1
    cases frames with
    | nil =>
      cases walked
      exact mirrors.last_look vars body script
    | cons f frames =>
      rw [Host.walk, flag] at walked
      cases set : w.running with
      | false =>
        rw [set] at walked
        cases walked
        have looked : Leads vars body w { w with script := .returned .stopped } := by
          refine .single (.script true) ?_
          rw [step, stepScript, script, set]
          rfl
        exact ⟨_, looked, mirrors.withScript _, rfl⟩
      | true =>
        rw [set, Run.host_step] at walked
        have looked : Leads vars body w { w with script := .arriving f frames } := by
          refine .single (.script true) ?_
          rw [step, stepScript, script, set]
          rfl
        obtain ⟨w₁, arrived, mirrors₁, script₁⟩ :=
          (mirrors.withScript (.arriving f frames)).arrive vars body rfl
        obtain ⟨w₂, acted, mirrors₂, script₂⟩ := mirrors₁.act vars body script₁
        obtain ⟨w₃, onward, mirrors₃, script₃⟩ := ih mirrors₂ script₂ walked
        exact ⟨w₃, ((looked.trans arrived).trans acted).trans onward, mirrors₃, script₃⟩

end World

/-! ### Runs -/

/-- Every run of a session is one of the interleavings of its threads. The calls of that
interleaving give the answers that the run gives to stop requests. -/
theorem Session.execute_interleaves (s : Session) (source : Source) {vars : Variables} {fuel : Nat}
    {requests : StopRequests} {outcome : Termination} {r : Run}
    (ran : s.execute fuel source vars requests = some (outcome, r)) :
    ∃ acts w jobs, (s.world source).run (Session.scene vars)
        (Program.ofSource s.settings.tabWidth source).body acts = some w ∧
      w.script = .ended outcome ∧ w.crew.Rests jobs ∧
      r.Stands ⟨w.running, w.terminated, w.crew.running, jobs, r.acks⟩ w.crew.place ∧
      w.calls.map (·.phase) = (r.acks.map .answered).reverse := by
  let body := (Program.ofSource s.settings.tabWidth source).body
  let start : Run :=
    { session := { s.begin with vars }.withRobot ({ · with status := .running })
      source := source.exhaust, requests, jumps := [], prints := 0, ticks := 0, acks := [] }
  let w₀ : World (Session × Source) :=
    { crew := { Crew.ofEngine s.engine ((Session.scene vars).enter (s, source)) with running := true }
      running := true, terminated := false, spawner := .returned
      script := .looking [.new .block body], calls := [] }
  have spawned : World.Leads vars body (s.world source) w₀ :=
    ⟨List.replicate 5 (.spawner true) ++ [.script true], rfl⟩
  have resting : w₀.crew.Rests s.engine.background :=
    Crew.ofEngine_rests s.engine ((Session.scene vars).enter (s, source))
  have mirrors : w₀.Mirrors start := ⟨⟨_, resting, rfl, rfl, rfl⟩, rfl, rfl, rfl⟩
  obtain ⟨⟨outcome', r'⟩, walked, finished⟩ := Option.map_eq_some_iff.1 ran
  obtain ⟨w, onward, mirrors', script⟩ := mirrors.walk vars body rfl walked
  obtain ⟨⟨jobs, rests, session, source', -⟩, -, -, answers⟩ := mirrors'
  let w' : World (Session × Source) :=
    { w.withPlace ((Session.scene vars).leave w.crew.place) with
      running := false, terminated := true, script := .ended outcome' }
  have ended : World.Leads vars body w w' := by
    refine ⟨List.replicate 3 (.script true), ?_⟩
    simp [World.run, World.step, World.stepScript, List.replicate, script, w', World.withPlace]
  obtain ⟨acts, run⟩ := (spawned.trans onward).trans ended
  cases finished
  refine ⟨acts, w', jobs, run, rfl, rests, ⟨?_, source', rfl⟩, answers⟩
  show { r'.session.withRobot _ with running := false, terminated := true } = _
  rw [session]
  rfl

end RobotScript
