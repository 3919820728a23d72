import RobotScript.Proofs.Session.Structured

/-!
# Frames and single steps

Which loop a frame is a pass of, where a jump lands, and what one step of the walker comes to. At
its end a loop's frame does what executing the loop once more would do (`wrapUp_loop`).
-/

namespace RobotScript

/-! ### Frames -/

/-- The loop that a frame is a pass of. -/
def Frame.repeats? (f : Frame) : Option Stmt :=
  match f.kind with
  | .block => none
  | .loop line e => some (.loop line (.ok e) f.stmts)
  | .forever line => some (.forever line f.stmts)

theorem Frame.isLoop_eq (f : Frame) : f.isLoop = f.repeats?.isSome := by
  unfold Frame.isLoop Frame.repeats?
  cases f.kind <;> rfl

theorem Frame.repeats?_next (f : Frame) (n : Nat) :
    { f with next := n }.repeats? = f.repeats? := rfl

theorem Frame.left_next {f : Frame} {stmt : Stmt} (next : f.stmts[f.next]? = some stmt) :
    f.stmts.drop f.next = stmt :: f.stmts.drop (f.next + 1) := by
  obtain ⟨inside, rfl⟩ := List.getElem?_eq_some_iff.1 next
  exact List.drop_eq_getElem_cons inside

theorem Frame.next_of_left {f : Frame} {stmt : Stmt} {rest : List Stmt}
    (left : f.stmts.drop f.next = stmt :: rest) :
    f.stmts[f.next]? = some stmt ∧ f.stmts.drop (f.next + 1) = rest := by
  constructor
  · rw [← List.head?_drop, left, List.head?_cons]
  · rw [← List.tail_drop, left, List.tail_cons]

theorem Frame.left_end {f : Frame} (atEnd : f.stmts[f.next]? = none) :
    f.stmts.drop f.next = [] := by
  rw [List.drop_eq_nil_iff]
  exact List.getElem?_eq_none_iff.1 atEnd

def hasLoop (frames : List Frame) : Bool := frames.any Frame.isLoop

/-- The frames that are left when the statement on top of them ends in `exit`. -/
def Exit.land? (exit : Exit) (frames : List Frame) : Option (List Frame) :=
  match exit with
  | .done => some frames
  | .leave => leaveLoop? frames
  | .again => endPass? frames

/-- Whether a jump finds a loop can be seen from the stack. -/
theorem leaveLoop?_isSome (frames : List Frame) :
    (leaveLoop? frames).isSome = hasLoop frames := by
  induction frames with
  | nil => rfl
  | cons f frames ih =>
    cases loop : f.isLoop with
    | true => simp [leaveLoop?, hasLoop, loop]
    | false => simpa [leaveLoop?, hasLoop, loop] using ih

theorem endPass?_isSome (frames : List Frame) : (endPass? frames).isSome = hasLoop frames := by
  induction frames with
  | nil => rfl
  | cons f frames ih =>
    cases loop : f.isLoop with
    | true => simp [endPass?, hasLoop, loop]
    | false => simpa [endPass?, hasLoop, loop] using ih

theorem leaveLoop?_eq_none {frames : List Frame} (outside : hasLoop frames = false) :
    leaveLoop? frames = none := by
  rw [← Option.not_isSome_iff_eq_none, leaveLoop?_isSome, outside]
  exact Bool.false_ne_true

theorem endPass?_eq_none {frames : List Frame} (outside : hasLoop frames = false) :
    endPass? frames = none := by
  rw [← Option.not_isSome_iff_eq_none, endPass?_isSome, outside]
  exact Bool.false_ne_true

theorem land?_block {exit : Exit} {f : Frame} {frames : List Frame} (jumps : exit ≠ .done)
    (block : f.repeats? = none) : exit.land? (f :: frames) = exit.land? frames := by
  have notLoop : f.isLoop = false := by rw [f.isLoop_eq, block]; rfl
  cases exit with
  | done => exact absurd rfl jumps
  | leave => simp [Exit.land?, leaveLoop?, notLoop]
  | again => simp [Exit.land?, endPass?, notLoop]

/-- A jump does not care how far the frames have come. -/
theorem land?_next {exit : Exit} (jumps : exit ≠ .done) (f : Frame) (n : Nat)
    (frames : List Frame) :
    exit.land? ({ f with next := n } :: frames) = exit.land? (f :: frames) := by
  cases exit with
  | done => exact absurd rfl jumps
  | leave | again => rfl

theorem hasLoop_block {f : Frame} {frames : List Frame} (block : f.repeats? = none) :
    hasLoop (f :: frames) = hasLoop frames := by
  simp [hasLoop, f.isLoop_eq, block]

theorem hasLoop_loop {f : Frame} {stmt : Stmt} (loop : f.repeats? = some stmt)
    (frames : List Frame) : hasLoop (f :: frames) = true := by
  simp [hasLoop, f.isLoop_eq, loop]

theorem hasLoop_eq_false_iff {f : Frame} {frames : List Frame} :
    hasLoop (f :: frames) = false ↔ f.repeats? = none ∧ hasLoop frames = false := by
  simp [hasLoop, f.isLoop_eq]

/-- A loop is left by dropping its frame and continued by going to the end of it. -/
theorem land?_loop {f : Frame} {stmt : Stmt} (loop : f.repeats? = some stmt)
    (frames : List Frame) :
    Exit.land? .leave (f :: frames) = some frames ∧
      Exit.land? .again (f :: frames) = some ({ f with next := f.stmts.length } :: frames) := by
  have isLoop : f.isLoop = true := by rw [f.isLoop_eq, loop]; rfl
  simp [Exit.land?, leaveLoop?, endPass?, isLoop]

namespace Host

variable {σ : Type} {host : Host σ}

/-! ### Single steps -/

theorem check?_none_of_decides {c : Condition} {line : Nat} {s t : σ}
    (test : host.Decides line c s none t) : host.check? c line s = (none, t) := by
  cases test with
  | unread => rfl
  | fault failed => simp [check?, test?, value?, failed]

theorem check?_some_of_decides {c : Condition} {line : Nat} {s t : σ} {holds : Bool}
    (test : host.Decides line c s (some holds) t) :
    ∃ e, c = .ok e ∧ host.check? c line s = (some (e, holds), t) := by
  cases test with
  | @value e v _ _ read => exact ⟨e, rfl, by simp [check?, test?, value?, read]⟩

theorem decides_of_check? (host : Host σ) (c : Condition) (line : Nat) (s : σ) :
    (∃ t, host.check? c line s = (none, t) ∧ host.Decides line c s none t) ∨
      ∃ e holds t, c = .ok e ∧ host.check? c line s = (some (e, holds), t) ∧
        host.Decides line c s (some holds) t := by
  cases c with
  | error fault => exact .inl ⟨_, rfl, .unread⟩
  | ok e =>
    rcases read : host.evaluate e s with ⟨fault | v, t⟩
    · exact .inl ⟨_, by simp [check?, test?, value?, read], .fault read⟩
    · exact .inr ⟨e, v.truthy, t, rfl, by simp [check?, test?, value?, read], .value read⟩

theorem execute_of_acts {stmt : Stmt} {s t : σ} (acts : host.Acts stmt s t)
    (frames : List Frame) : host.execute stmt frames s = (frames, t) := by
  cases acts with
  | strayEnd | strayElse | invalid => rfl
  | set read | print read => simp [execute, value?, read]
  | setFault failed | printFault failed => simp [execute, value?, failed]
  | command carried | drive carried => simp [execute, carried]
  | commandFault failed => simp [execute, failed]

theorem acts_set (host : Host σ) (line : Nat) (name : String) (e : Expr) (s : σ) :
    ∃ t, host.Acts (.set line name e) s t := by
  rcases read : host.evaluate e s with ⟨fault | v, t⟩
  · exact ⟨_, .setFault read⟩
  · exact ⟨_, .set read⟩

theorem acts_print (host : Host σ) (line : Nat) (newline : Bool) (e : Expr) (s : σ) :
    ∃ t, host.Acts (.print line newline e) s t := by
  rcases read : host.evaluate e s with ⟨fault | v, t⟩
  · exact ⟨_, .printFault read⟩
  · exact ⟨_, .print read⟩

theorem acts_command (host : Host σ) (line : Nat) (text : String) (s : σ) :
    ∃ t, host.Acts (.command line text) s t := by
  rcases carried : host.command text s with ⟨fault | completion, t⟩
  · exact ⟨_, .commandFault carried⟩
  · cases completion with
    | finished => exact ⟨_, .command carried⟩
    | deferred job => exact ⟨_, .drive carried⟩

/-- At its end a loop's frame does what executing the loop once more would do. -/
theorem wrapUp_loop {f : Frame} {stmt : Stmt} (loop : f.repeats? = some stmt)
    (frames : List Frame) (s : σ) :
    host.wrapUp f frames s = host.execute stmt frames (host.jump stmt.line s) := by
  obtain ⟨kind, stmts, next⟩ := f
  cases kind with
  | block => simp [Frame.repeats?] at loop
  | loop line e =>
    simp only [Frame.repeats?, Option.some.injEq] at loop
    subst loop
    simp only [wrapUp, execute, check?, Stmt.line]
    rcases host.test? e line (host.jump line s) with ⟨_ | _ | _, t⟩ <;> rfl
  | forever line =>
    simp only [Frame.repeats?, Option.some.injEq] at loop
    subst loop
    rfl

theorem wrapUp_block {f : Frame} (block : f.repeats? = none) (frames : List Frame) (s : σ) :
    host.wrapUp f frames s = (frames, s) := by
  obtain ⟨kind, stmts, next⟩ := f
  cases kind with
  | block => rfl
  | loop | forever => simp [Frame.repeats?] at block

theorem step_next {f : Frame} {stmt : Stmt} (next : f.stmts[f.next]? = some stmt)
    (frames : List Frame) (s : σ) :
    host.step f frames s =
      host.execute stmt ({ f with next := f.next + 1 } :: frames) (host.jump stmt.line s) := by
  simp [step, next]

theorem step_end {f : Frame} (atEnd : f.stmts[f.next]? = none) (frames : List Frame) (s : σ) :
    host.step f frames s = host.wrapUp f frames s := by
  simp [step, atEnd]

end Host

end RobotScript
