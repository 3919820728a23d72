import RobotScript.Proofs.Session.Frames

/-!
# From walks to structure

What is left of a stack of frames has a structured meaning of its own (`Finishes`): the innermost
block runs to its end or jumps out, then the frames around it are finished. `finishes_step` shows
that a step of the walker does not change what this comes to, so a walk that empties its stack has
done what the stack meant when the walk began.
-/

namespace RobotScript.Host

variable {σ : Type} {host : Host σ}

variable (host) in
/-- From a stack and a state, the structured meaning of what is left leads to a state. -/
inductive Finishes : List Frame × σ → σ → Prop
  | nil {s} : Finishes ([], s) s
  | pop {f frames s t u}
    (run : host.Runs (hasLoop (f :: frames)) (f.stmts.drop f.next) s .done t)
    (block : f.repeats? = none) (rest : Finishes (frames, t) u) : Finishes (f :: frames, s) u
  | pass {f stmt frames s t u v}
    (run : host.Runs (hasLoop (f :: frames)) (f.stmts.drop f.next) s .done t)
    (loop : f.repeats? = some stmt) (more : host.Executes (hasLoop frames) stmt t .done u)
    (rest : Finishes (frames, u) v) : Finishes (f :: frames, s) v
  | jump {f frames frames' s t u exit}
    (run : host.Runs (hasLoop (f :: frames)) (f.stmts.drop f.next) s exit t)
    (jumps : exit ≠ .done) (lands : exit.land? (f :: frames) = some frames')
    (rest : Finishes (frames', t) u) : Finishes (f :: frames, s) u

variable (host) in
/-- From `s` the meaning of `stmt` leads to frames that finish in `u`. -/
def Unwinds (stmt : Stmt) (frames : List Frame) (s u : σ) : Prop :=
  ∃ exit t frames', host.Executes (hasLoop frames) stmt s exit t ∧
    exit.land? frames = some frames' ∧ host.Finishes (frames', t) u

/-! ### Pushed frames -/

theorem finishes_block {body : List Stmt} {frames : List Frame} {s u : σ}
    (finishes : host.Finishes (.new .block body :: frames, s) u) :
    ∃ exit t frames', host.Runs (hasLoop frames) body s exit t ∧
      exit.land? frames = some frames' ∧ host.Finishes (frames', t) u := by
  have block : (Frame.new .block body).repeats? = none := rfl
  cases finishes with
  | pop run _ rest =>
    rw [hasLoop_block block] at run
    exact ⟨.done, _, _, run, rfl, rest⟩
  | pass _ loop => rw [block] at loop; cases loop
  | jump run jumps lands rest =>
    rw [hasLoop_block block] at run
    rw [land?_block jumps block] at lands
    exact ⟨_, _, _, run, lands, rest⟩

/-- At the end of a loop's frame nothing is left of the pass. -/
theorem finishes_end {f : Frame} {stmt : Stmt} {frames : List Frame} {s u : σ}
    (loop : f.repeats? = some stmt)
    (finishes : host.Finishes ({ f with next := f.stmts.length } :: frames, s) u) :
    ∃ t, host.Executes (hasLoop frames) stmt s .done t ∧ host.Finishes (frames, t) u := by
  cases finishes with
  | pop _ block => rw [f.repeats?_next, loop] at block; cases block
  | pass nothing loop' more rest =>
    obtain rfl := Option.some.inj (loop.symm.trans loop')
    simp only [List.drop_length] at nothing
    cases nothing
    exact ⟨_, more, rest⟩
  | jump nothing jumps =>
    simp only [List.drop_length] at nothing
    cases nothing
    exact absurd rfl jumps

/-- A pass of a loop ends by a `break`, or else the loop is executed once more. -/
theorem finishes_pass {f : Frame} {stmt : Stmt} {frames : List Frame} {s u : σ}
    (loop : f.repeats? = some stmt) (finishes : host.Finishes (f :: frames, s) u) :
    ∃ exit t v, host.Runs true (f.stmts.drop f.next) s exit t ∧
      (exit = .leave ∧ v = t ∨ exit ≠ .leave ∧ host.Executes (hasLoop frames) stmt t .done v) ∧
      host.Finishes (frames, v) u := by
  have looped := hasLoop_loop loop frames
  obtain ⟨landsLeave, landsAgain⟩ := land?_loop loop frames
  cases finishes with
  | pop _ block => rw [loop] at block; cases block
  | pass run loop' more rest =>
    rw [looped] at run
    obtain rfl := Option.some.inj (loop.symm.trans loop')
    exact ⟨.done, _, _, run, .inr ⟨by decide, more⟩, rest⟩
  | @jump _ _ _ _ t _ exit run jumps lands rest =>
    rw [looped] at run
    cases exit with
    | done => exact absurd rfl jumps
    | leave =>
      obtain rfl := Option.some.inj (landsLeave.symm.trans lands)
      exact ⟨.leave, t, t, run, .inl ⟨rfl, rfl⟩, rest⟩
    | again =>
      obtain rfl := Option.some.inj (landsAgain.symm.trans lands)
      obtain ⟨v, more, rest⟩ := finishes_end loop rest
      exact ⟨.again, t, v, run, .inr ⟨by decide, more⟩, rest⟩

/-! ### Statements -/

theorem unwinds_act {stmt : Stmt} {frames : List Frame} {s t u : σ}
    (acts : host.Acts stmt (host.jump stmt.line s) t)
    (finishes : host.Finishes (host.execute stmt frames (host.jump stmt.line s)) u) :
    host.Unwinds stmt frames s u := by
  rw [execute_of_acts acts] at finishes
  exact ⟨.done, t, frames, .act acts, rfl, finishes⟩

theorem unwinds_branch {line : Nat} {c : Condition} {body : List Stmt}
    {otherwise : Option (List Stmt)} {frames : List Frame} {s u : σ}
    (finishes : host.Finishes
      (host.execute (.branch line c body otherwise) frames (host.jump line s)) u) :
    host.Unwinds (.branch line c body otherwise) frames s u := by
  simp only [execute] at finishes
  rcases decides_of_check? host c line (host.jump line s) with
    ⟨t, checked, test⟩ | ⟨e, holds, t, _, checked, test⟩
  · simp only [checked] at finishes
    exact ⟨.done, t, frames, .branchFault test, rfl, finishes⟩
  · cases holds with
    | true =>
      simp only [checked] at finishes
      obtain ⟨exit, v, frames', run, lands, rest⟩ := finishes_block finishes
      exact ⟨exit, v, frames', .branchThen test run, lands, rest⟩
    | false =>
      simp only [checked] at finishes
      cases otherwise with
      | none => exact ⟨.done, t, frames, .branchSkip test, rfl, finishes⟩
      | some otherwise =>
        obtain ⟨exit, v, frames', run, lands, rest⟩ := finishes_block finishes
        exact ⟨exit, v, frames', .branchElse test run, lands, rest⟩

theorem unwinds_loop {line : Nat} {c : Condition} {body : List Stmt} {frames : List Frame}
    {s u : σ}
    (finishes : host.Finishes (host.execute (.loop line c body) frames (host.jump line s)) u) :
    host.Unwinds (.loop line c body) frames s u := by
  simp only [execute] at finishes
  rcases decides_of_check? host c line (host.jump line s) with
    ⟨t, checked, test⟩ | ⟨e, holds, t, rfl, checked, test⟩
  · simp only [checked] at finishes
    exact ⟨.done, t, frames, .loopEnd test (by simp), rfl, finishes⟩
  · cases holds with
    | true =>
      simp only [checked] at finishes
      obtain ⟨exit, v, w, run, left | ⟨stays, more⟩, rest⟩ := finishes_pass rfl finishes
      · obtain ⟨rfl, rfl⟩ := left
        exact ⟨.done, w, frames, .loopLeave test run, rfl, rest⟩
      · exact ⟨.done, w, frames, .loopNext test run stays more, rfl, rest⟩
    | false =>
      simp only [checked] at finishes
      exact ⟨.done, t, frames, .loopEnd test (by simp), rfl, finishes⟩

theorem unwinds_forever {line : Nat} {body : List Stmt} {frames : List Frame} {s u : σ}
    (finishes : host.Finishes (host.execute (.forever line body) frames (host.jump line s)) u) :
    host.Unwinds (.forever line body) frames s u := by
  obtain ⟨exit, v, w, run, left | ⟨stays, more⟩, rest⟩ := finishes_pass rfl finishes
  · obtain ⟨rfl, rfl⟩ := left
    exact ⟨.done, w, frames, .foreverLeave run, rfl, rest⟩
  · exact ⟨.done, w, frames, .foreverNext run stays more, rfl, rest⟩

theorem unwinds_group {line : Nat} {closed : Bool} {body : List Stmt} {frames : List Frame}
    {s u : σ}
    (finishes : host.Finishes
      (host.execute (.group line closed body) frames (host.jump line s)) u) :
    host.Unwinds (.group line closed body) frames s u := by
  obtain ⟨exit, t, frames', run, lands, rest⟩ := finishes_block finishes
  cases closed with
  | true => exact ⟨exit, t, frames', .group run, lands, rest⟩
  | false => exact ⟨exit, t, frames', .groupOpen run, lands, rest⟩

theorem unwinds_leave {line : Nat} {frames : List Frame} {s u : σ}
    (finishes : host.Finishes (host.execute (.leave line) frames (host.jump line s)) u) :
    host.Unwinds (.leave line) frames s u := by
  have found := leaveLoop?_isSome frames
  unfold Unwinds
  simp only [execute] at finishes
  cases lands : leaveLoop? frames with
  | some frames' =>
    rw [lands] at finishes found
    rw [← found]
    exact ⟨.leave, _, frames', .leave, lands, finishes⟩
  | none =>
    rw [lands] at finishes found
    rw [← found]
    exact ⟨.done, _, frames, .leaveStray, rfl, finishes⟩

theorem unwinds_again {line : Nat} {frames : List Frame} {s u : σ}
    (finishes : host.Finishes (host.execute (.again line) frames (host.jump line s)) u) :
    host.Unwinds (.again line) frames s u := by
  have found := endPass?_isSome frames
  unfold Unwinds
  simp only [execute] at finishes
  cases lands : endPass? frames with
  | some frames' =>
    rw [lands] at finishes found
    rw [← found]
    exact ⟨.again, _, frames', .again, lands, finishes⟩
  | none =>
    rw [lands] at finishes found
    rw [← found]
    exact ⟨.done, _, frames, .againStray, rfl, finishes⟩

theorem unwinds_execute {stmt : Stmt} {frames : List Frame} {s u : σ}
    (finishes : host.Finishes (host.execute stmt frames (host.jump stmt.line s)) u) :
    host.Unwinds stmt frames s u := by
  cases stmt with
  | branch => exact unwinds_branch finishes
  | loop => exact unwinds_loop finishes
  | forever => exact unwinds_forever finishes
  | group => exact unwinds_group finishes
  | leave => exact unwinds_leave finishes
  | again => exact unwinds_again finishes
  | strayEnd => exact unwinds_act .strayEnd finishes
  | strayElse => exact unwinds_act .strayElse finishes
  | invalid => exact unwinds_act .invalid finishes
  | set line name e =>
    obtain ⟨t, acts⟩ := acts_set host line name e (host.jump line s)
    exact unwinds_act acts finishes
  | print line newline e =>
    obtain ⟨t, acts⟩ := acts_print host line newline e (host.jump line s)
    exact unwinds_act acts finishes
  | command line text =>
    obtain ⟨t, acts⟩ := acts_command host line text (host.jump line s)
    exact unwinds_act acts finishes

/-! ### Steps -/

/-- Loops catch the jumps of their passes. -/
theorem executes_loop {f : Frame} {stmt : Stmt} {looped : Bool} {s t : σ} {exit : Exit}
    (loop : f.repeats? = some stmt) (executes : host.Executes looped stmt s exit t) :
    exit = .done := by
  unfold Frame.repeats? at loop
  cases executes with
  | act | loopEnd | loopLeave | loopNext | foreverLeave | foreverNext | leaveStray | againStray
  | branchSkip | branchFault => rfl
  | branchThen | branchElse | group | groupOpen | leave | again => split at loop <;> cases loop

/-- The next statement of a frame, run to its end, is the first of those that the frame has left. -/
theorem finishes_cons {f : Frame} {stmt : Stmt} {frames : List Frame} {s t u : σ}
    (next : f.stmts[f.next]? = some stmt)
    (first : host.Executes (hasLoop (f :: frames)) stmt s .done t)
    (finishes : host.Finishes ({ f with next := f.next + 1 } :: frames, t) u) :
    host.Finishes (f :: frames, s) u := by
  have both {exit : Exit} {v : σ}
      (run : host.Runs (hasLoop (f :: frames)) (f.stmts.drop (f.next + 1)) t exit v) :
      host.Runs (hasLoop (f :: frames)) (f.stmts.drop f.next) s exit v := by
    rw [Frame.left_next next]
    exact .next first run
  cases finishes with
  | pop run block rest => exact .pop (both run) block rest
  | pass run loop more rest => exact .pass (both run) loop more rest
  | jump run jumps lands rest =>
    rw [land?_next jumps] at lands
    exact .jump (both run) jumps lands rest

/-- A step does not change what is left of the stack. -/
theorem finishes_step {f : Frame} {frames : List Frame} {s u : σ}
    (finishes : host.Finishes (host.step f frames s) u) :
    host.Finishes (f :: frames, s) u := by
  cases next : f.stmts[f.next]? with
  | some stmt =>
    rw [step_next next] at finishes
    obtain ⟨exit, t, frames', executes, lands, rest⟩ := unwinds_execute finishes
    by_cases ends : exit = .done
    · subst ends
      obtain rfl := Option.some.inj lands
      exact finishes_cons next executes rest
    · rw [land?_next ends] at lands
      exact .jump (by rw [Frame.left_next next]; exact .cut executes ends) ends lands rest
  | none =>
    rw [step_end next] at finishes
    have run : host.Runs (hasLoop (f :: frames)) (f.stmts.drop f.next) s .done s := by
      rw [Frame.left_end next]
      exact .nil
    cases kind : f.repeats? with
    | none =>
      rw [wrapUp_block kind] at finishes
      exact .pop run kind finishes
    | some stmt =>
      rw [wrapUp_loop kind] at finishes
      obtain ⟨exit, t, frames', executes, lands, rest⟩ := unwinds_execute finishes
      obtain rfl := executes_loop kind executes
      obtain rfl := Option.some.inj lands
      exact .pass run kind executes rest

theorem finishes_of_walk {fuel : Nat} {frames : List Frame} {s t : σ}
    (walked : host.walk fuel frames s = some (.endOfScript, t)) :
    host.Finishes (frames, s) t := by
  induction fuel generalizing frames s with
  | zero =>
    cases frames with
    | nil => obtain ⟨-, rfl⟩ := Prod.mk.inj (Option.some.inj walked); exact .nil
    | cons f frames => simp [walk] at walked
  | succ fuel ih =>
    cases frames with
    | nil => obtain ⟨-, rfl⟩ := Prod.mk.inj (Option.some.inj walked); exact .nil
    | cons f frames =>
      rw [walk] at walked
      split at walked
      · exact finishes_step (ih walked)
      · simp at walked

/-- Outside of loops nothing jumps. -/
theorem runs_program {body : List Stmt} {s t : σ}
    (finishes : host.Finishes ([.new .block body], s) t) : host.Runs false body s .done t := by
  obtain ⟨exit, u, frames', run, lands, rest⟩ := finishes_block finishes
  cases exit with
  | done =>
    obtain rfl := Option.some.inj lands
    cases rest with
    | nil => exact run
  | leave | again => simp [Exit.land?, leaveLoop?, endPass?] at lands

end RobotScript.Host
