import RobotScript.Proofs.Session.Frames

/-!
# From structure to walks

Every rule of the structured meaning is followed by the walker: from where the rule ends the walker
goes on as if it had taken the rule in one step (`Follows`, `FollowsBlock`, one lemma to a rule).
So a program that has a meaning has a walk (`ends_of_runs`).
-/

namespace RobotScript.Host

variable {σ : Type} {host : Host σ}

variable (host) in
/-- Step after step, the stack empties. -/
inductive Ends : List Frame × σ → σ → Prop
  | nil {s} : Ends ([], s) s
  | step {f frames s t} (rest : Ends (host.step f frames s) t) : Ends (f :: frames, s) t

variable (host) in
/-- The walker does with a statement what the statement means: whatever follows, it follows from
where the statement ends. -/
def Follows (looped : Bool) (stmt : Stmt) (s : σ) (exit : Exit) (t : σ) : Prop :=
  ∀ ⦃frames frames' u⦄, hasLoop frames = looped → exit.land? frames = some frames' →
    host.Ends (frames', t) u → host.Ends (host.execute stmt frames (host.jump stmt.line s)) u

variable (host) in
/-- The same of the statements that a frame has left. -/
def FollowsBlock (looped : Bool) (stmts : List Stmt) (s : σ) (exit : Exit) (t : σ) : Prop :=
  ∀ ⦃f frames frames' u⦄, f.stmts.drop f.next = stmts → hasLoop (f :: frames) = looped →
    exit.land? ({ f with next := f.stmts.length } :: frames) = some frames' →
    host.Ends (frames', t) u → host.Ends (f :: frames, s) u

/-! ### Pushed frames -/

theorem ends_wrapUp {f : Frame} {frames : List Frame} {s u : σ}
    (atEnd : f.stmts[f.next]? = none) :
    host.Ends (f :: frames, s) u ↔ host.Ends (host.wrapUp f frames s) u := by
  constructor
  · intro ends
    cases ends with
    | step rest => rwa [step_end atEnd] at rest
  · intro ends
    exact .step (by rwa [step_end atEnd])

/-- Pushing a block is doing what it means: at its end it gives way to the frames around it. -/
theorem ends_push_block {looped : Bool} {body : List Stmt} {frames frames' : List Frame}
    {exit : Exit} {s t u : σ} (block : host.FollowsBlock looped body s exit t)
    (enclosed : hasLoop frames = looped) (lands : exit.land? frames = some frames')
    (ends : host.Ends (frames', t) u) : host.Ends (.new .block body :: frames, s) u := by
  have enclosed' : hasLoop (.new .block body :: frames) = looped := by
    rw [hasLoop_block rfl, enclosed]
  by_cases jumps : exit = .done
  · subst jumps
    obtain rfl := Option.some.inj lands
    refine block rfl enclosed' rfl ((ends_wrapUp (by simp)).2 ?_)
    rwa [wrapUp_block rfl]
  · refine block rfl enclosed' ?_ ends
    rw [land?_next jumps, land?_block jumps rfl, lands]

/-- Pushing a pass of a loop is doing what it means, and then executing the loop once more unless
the pass has left it. -/
theorem ends_push_pass {f : Frame} {stmt : Stmt} {frames : List Frame} {exit : Exit} {s t u : σ}
    (loop : f.repeats? = some stmt)
    (pass : host.FollowsBlock true (f.stmts.drop f.next) s exit t)
    (left : exit = .leave → host.Ends (frames, t) u)
    (stays : exit ≠ .leave →
      host.Ends (host.execute stmt frames (host.jump stmt.line t)) u) :
    host.Ends (f :: frames, s) u := by
  have loop' : { f with next := f.stmts.length }.repeats? = some stmt := loop
  have more (h : exit ≠ .leave) : host.Ends ({ f with next := f.stmts.length } :: frames, t) u := by
    refine (ends_wrapUp (by simp)).2 ?_
    rw [wrapUp_loop loop']
    exact stays h
  obtain ⟨landsLeave, landsAgain⟩ := land?_loop loop' frames
  cases exit with
  | done => exact pass rfl (hasLoop_loop loop frames) rfl (more (by decide))
  | leave => exact pass rfl (hasLoop_loop loop frames) landsLeave (left rfl)
  | again => exact pass rfl (hasLoop_loop loop frames) landsAgain (more (by decide))

/-! ### Statements -/

theorem follows_act {looped : Bool} {stmt : Stmt} {s t : σ}
    (acts : host.Acts stmt (host.jump stmt.line s) t) : host.Follows looped stmt s .done t := by
  intro frames frames' u _ lands ends
  obtain rfl := Option.some.inj lands
  rwa [execute_of_acts acts]

theorem follows_branchThen {looped : Bool} {line : Nat} {c : Condition} {body : List Stmt}
    {otherwise : Option (List Stmt)} {s t u : σ} {exit : Exit}
    (test : host.Decides line c (host.jump line s) (some true) t)
    (run : host.FollowsBlock looped body t exit u) :
    host.Follows looped (.branch line c body otherwise) s exit u := by
  intro frames frames' v enclosed lands ends
  obtain ⟨e, -, checked⟩ := check?_some_of_decides test
  simp only [execute, Stmt.line, checked]
  exact ends_push_block run enclosed lands ends

theorem follows_branchElse {looped : Bool} {line : Nat} {c : Condition}
    {body otherwise : List Stmt} {s t u : σ} {exit : Exit}
    (test : host.Decides line c (host.jump line s) (some false) t)
    (run : host.FollowsBlock looped otherwise t exit u) :
    host.Follows looped (.branch line c body (some otherwise)) s exit u := by
  intro frames frames' v enclosed lands ends
  obtain ⟨e, -, checked⟩ := check?_some_of_decides test
  simp only [execute, Stmt.line, checked]
  exact ends_push_block run enclosed lands ends

theorem follows_branchSkip {looped : Bool} {line : Nat} {c : Condition} {body : List Stmt}
    {s t : σ} (test : host.Decides line c (host.jump line s) (some false) t) :
    host.Follows looped (.branch line c body none) s .done t := by
  intro frames frames' u _ lands ends
  obtain ⟨e, -, checked⟩ := check?_some_of_decides test
  obtain rfl := Option.some.inj lands
  simp only [execute, Stmt.line, checked]
  exact ends

theorem follows_branchFault {looped : Bool} {line : Nat} {c : Condition} {body : List Stmt}
    {otherwise : Option (List Stmt)} {s t : σ}
    (test : host.Decides line c (host.jump line s) none t) :
    host.Follows looped (.branch line c body otherwise) s .done t := by
  intro frames frames' u _ lands ends
  obtain rfl := Option.some.inj lands
  simpa only [execute, Stmt.line, check?_none_of_decides test] using ends

theorem follows_loopEnd {looped : Bool} {line : Nat} {c : Condition} {body : List Stmt}
    {s t : σ} {holds : Option Bool} (test : host.Decides line c (host.jump line s) holds t)
    (ended : holds ≠ some true) : host.Follows looped (.loop line c body) s .done t := by
  intro frames frames' u _ lands ends
  obtain rfl := Option.some.inj lands
  rcases holds with _ | _ | _
  · simpa only [execute, Stmt.line, check?_none_of_decides test] using ends
  · obtain ⟨e, -, checked⟩ := check?_some_of_decides test
    simpa only [execute, Stmt.line, checked] using ends
  · exact absurd rfl ended

/-- A pass of a `while` and what comes after it. -/
theorem follows_loopPass {looped : Bool} {line : Nat} {c : Condition} {body : List Stmt}
    {s t u v : σ} {exit : Exit} (test : host.Decides line c (host.jump line s) (some true) t)
    (pass : host.FollowsBlock true body t exit u) (left : exit = .leave → u = v)
    (stays : exit ≠ .leave → host.Follows looped (.loop line c body) u .done v) :
    host.Follows looped (.loop line c body) s .done v := by
  intro frames frames' w enclosed lands ends
  obtain ⟨e, rfl, checked⟩ := check?_some_of_decides test
  simp only [execute, Stmt.line, checked]
  refine ends_push_pass rfl pass ?_ ?_
  · intro h
    obtain rfl := Option.some.inj lands
    rwa [left h]
  · intro h
    exact stays h enclosed lands ends

/-- A pass of a `forever` and what comes after it. -/
theorem follows_foreverPass {looped : Bool} {line : Nat} {body : List Stmt} {s t u : σ}
    {exit : Exit} (pass : host.FollowsBlock true body (host.jump line s) exit t)
    (left : exit = .leave → t = u)
    (stays : exit ≠ .leave → host.Follows looped (.forever line body) t .done u) :
    host.Follows looped (.forever line body) s .done u := by
  intro frames frames' v enclosed lands ends
  refine ends_push_pass rfl pass ?_ ?_
  · intro h
    obtain rfl := Option.some.inj lands
    rwa [left h]
  · intro h
    exact stays h enclosed lands ends

theorem follows_group {looped closed : Bool} {line : Nat} {body : List Stmt} {s t : σ}
    {exit : Exit}
    (run : host.FollowsBlock looped body
      (if closed then host.jump line s else host.warning "Expected END" line (host.jump line s))
      exit t) :
    host.Follows looped (.group line closed body) s exit t := by
  intro frames frames' u enclosed lands ends
  exact ends_push_block run enclosed lands ends

theorem follows_leave {line : Nat} {s : σ} :
    host.Follows true (.leave line) s .leave (host.jump line s) := by
  intro frames frames' u _ lands ends
  have found : leaveLoop? frames = some frames' := lands
  simpa only [execute, Stmt.line, found] using ends

theorem follows_again {line : Nat} {s : σ} :
    host.Follows true (.again line) s .again (host.jump line s) := by
  intro frames frames' u _ lands ends
  have found : endPass? frames = some frames' := lands
  simpa only [execute, Stmt.line, found] using ends

theorem follows_leaveStray {line : Nat} {s : σ} :
    host.Follows false (.leave line) s .done
      (host.warning "BREAK outside of a loop" line (host.jump line s)) := by
  intro frames frames' u enclosed lands ends
  obtain rfl := Option.some.inj lands
  simpa only [execute, Stmt.line, leaveLoop?_eq_none enclosed] using ends

theorem follows_againStray {line : Nat} {s : σ} :
    host.Follows false (.again line) s .done
      (host.warning "CONTINUE outside of a loop" line (host.jump line s)) := by
  intro frames frames' u enclosed lands ends
  obtain rfl := Option.some.inj lands
  simpa only [execute, Stmt.line, endPass?_eq_none enclosed] using ends

/-! ### Blocks -/

theorem followsBlock_nil {looped : Bool} {s : σ} : host.FollowsBlock looped [] s .done s := by
  intro f frames frames' u left _ lands ends
  obtain rfl := Option.some.inj lands
  have atEnd : f.stmts[f.next]? = none :=
    List.getElem?_eq_none_iff.2 (List.drop_eq_nil_iff.1 left)
  rw [ends_wrapUp (by simp)] at ends
  exact (ends_wrapUp atEnd).2 ends

theorem followsBlock_next {looped : Bool} {stmt : Stmt} {rest : List Stmt} {s t u : σ}
    {exit : Exit} (first : host.Follows looped stmt s .done t)
    (run : host.FollowsBlock looped rest t exit u) :
    host.FollowsBlock looped (stmt :: rest) s exit u := by
  intro f frames frames' v left enclosed lands ends
  obtain ⟨next, left⟩ := Frame.next_of_left left
  refine .step ?_
  rw [step_next next]
  exact first enclosed rfl (run left enclosed lands ends)

theorem followsBlock_cut {looped : Bool} {stmt : Stmt} {rest : List Stmt} {s t : σ}
    {exit : Exit} (first : host.Follows looped stmt s exit t) (jumps : exit ≠ .done) :
    host.FollowsBlock looped (stmt :: rest) s exit t := by
  intro f frames frames' u left enclosed lands ends
  obtain ⟨next, -⟩ := Frame.next_of_left left
  refine .step ?_
  rw [step_next next]
  rw [land?_next jumps] at lands
  exact first enclosed ((land?_next jumps f _ frames).trans lands) ends

mutual

/-- The walker follows every statement. -/
theorem follows_of_executes {looped : Bool} {stmt : Stmt} {s t : σ} {exit : Exit} :
    host.Executes looped stmt s exit t → host.Follows looped stmt s exit t
  | .act acts => follows_act acts
  | .branchThen test run => follows_branchThen test (follows_of_runs run)
  | .branchElse test run => follows_branchElse test (follows_of_runs run)
  | .branchSkip test => follows_branchSkip test
  | .branchFault test => follows_branchFault test
  | .loopEnd test ended => follows_loopEnd test ended
  | .loopLeave test pass =>
    follows_loopPass test (follows_of_runs pass) (fun _ => rfl) (fun stays => absurd rfl stays)
  | .loopNext test pass stays rest =>
    follows_loopPass test (follows_of_runs pass) (fun left => absurd left stays)
      (fun _ => follows_of_executes rest)
  | .foreverLeave pass =>
    follows_foreverPass (follows_of_runs pass) (fun _ => rfl) (fun stays => absurd rfl stays)
  | .foreverNext pass stays rest =>
    follows_foreverPass (follows_of_runs pass) (fun left => absurd left stays)
      (fun _ => follows_of_executes rest)
  | .group run | .groupOpen run => follows_group (follows_of_runs run)
  | .leave => follows_leave
  | .leaveStray => follows_leaveStray
  | .again => follows_again
  | .againStray => follows_againStray

theorem follows_of_runs {looped : Bool} {stmts : List Stmt} {s t : σ} {exit : Exit} :
    host.Runs looped stmts s exit t → host.FollowsBlock looped stmts s exit t
  | .nil => followsBlock_nil
  | .next first run => followsBlock_next (follows_of_executes first) (follows_of_runs run)
  | .cut first jumps => followsBlock_cut (follows_of_executes first) jumps

end

/-! ### Walks -/

theorem ends_of_runs {body : List Stmt} {s t : σ} (runs : host.Runs false body s .done t) :
    host.Ends ([.new .block body], s) t :=
  ends_push_block (follows_of_runs runs) rfl rfl .nil

/-- A walk gets to where its steps lead unless it is stopped on the way. -/
theorem walk_of_ends {config : List Frame × σ} {t : σ} (ends : host.Ends config t) :
    ∃ fuel, host.walk fuel config.1 config.2 = some (.endOfScript, t) ∨
      ∃ u, host.walk fuel config.1 config.2 = some (.stopped, u) := by
  induction ends with
  | @nil s =>
    refine ⟨0, ?_⟩
    cases running : host.running s with
    | true => exact .inl (by simp [walk, running])
    | false => exact .inr ⟨s, by simp [walk, running]⟩
  | @step f frames s t rest ih =>
    obtain ⟨fuel, walked⟩ := ih
    cases running : host.running s with
    | true => exact ⟨fuel + 1, by simpa [walk, running] using walked⟩
    | false => exact ⟨1, .inr ⟨s, by simp [walk, running]⟩⟩

end RobotScript.Host
