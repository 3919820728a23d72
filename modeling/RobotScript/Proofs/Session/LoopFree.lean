import RobotScript.Proofs.Script.Conservation
import RobotScript.Proofs.Session.Nesting

/-!
# Programs without loops

A walk of a program without loops goes once through the program from top to bottom and ends. What
it has still to do is a part of the pre-order of the program (`ahead`): a step takes the first
statement off and has its effect (`Host.Does`), may leave out blocks of that statement, and puts
nothing back.
-/

namespace RobotScript

/-! ### Addresses -/

namespace Stmt

mutual

/-- The statements of a block in pre-order, each with its address: its number in its block, counted
from one, behind those of the statements around it. `path` is the address of the statement that the
block belongs to, and `n` statements of the block come before these. The two blocks of an `if` both
count from one. -/
def spots (path : List Nat) (n : Nat) : List Stmt → List (List Nat × Stmt)
  | [] => []
  | stmt :: rest =>
    (path ++ [n + 1], stmt) :: (stmt.spotsWithin (path ++ [n + 1]) ++ spots path (n + 1) rest)

def spotsWithin (path : List Nat) : Stmt → List (List Nat × Stmt)
  | .branch _ _ body none | .loop _ _ body | .forever _ body | .group _ _ body => spots path 0 body
  | .branch _ _ body (some otherwise) => spots path 0 body ++ spots path 0 otherwise
  | _ => []

end

mutual

theorem map_spots (path : List Nat) (n : Nat) :
    ∀ block : List Stmt, (spots path n block).map (·.2) = preorder block
  | [] => rfl
  | stmt :: rest => by
    rw [spots, preorder, List.map_cons, List.map_append, map_spotsWithin, map_spots]

theorem map_spotsWithin (path : List Nat) :
    ∀ stmt : Stmt, (stmt.spotsWithin path).map (·.2) = stmt.within
  | .branch _ _ body none | .loop _ _ body | .forever _ body | .group _ _ body => by
    rw [spotsWithin, within, map_spots]
  | .branch _ _ body (some otherwise) => by
    rw [spotsWithin, within, List.map_append, map_spots, map_spots]
  | .leave _ | .again _ | .strayEnd _ | .strayElse _ | .set .. | .print .. | .command ..
  | .invalid .. => rfl

end

mutual

/-- The addresses in a block go on from the address of the block, with numbers that come later. -/
theorem mem_spots {path : List Nat} {spot : List Nat × Stmt} : ∀ {n : Nat} {block : List Stmt},
    spot ∈ spots path n block → ∃ m more, n < m ∧ spot.1 = path ++ m :: more
  | _, [] => by simp [spots]
  | n, stmt :: rest => by
    rw [spots, List.mem_cons, List.mem_append]
    rintro (rfl | inside | later)
    · exact ⟨n + 1, [], Nat.lt_succ_self n, rfl⟩
    · obtain ⟨m, more, same⟩ := mem_spotsWithin inside
      exact ⟨n + 1, m :: more, Nat.lt_succ_self n, by simp [same]⟩
    · obtain ⟨m, more, above, same⟩ := mem_spots later
      exact ⟨m, more, by omega, same⟩

theorem mem_spotsWithin {path : List Nat} {spot : List Nat × Stmt} : ∀ {stmt : Stmt},
    spot ∈ stmt.spotsWithin path → ∃ m more, spot.1 = path ++ m :: more
  | .branch _ _ body none | .loop _ _ body | .forever _ body | .group _ _ body => by
    rw [spotsWithin]
    intro inside
    obtain ⟨m, more, -, same⟩ := mem_spots inside
    exact ⟨m, more, same⟩
  | .branch _ _ body (some otherwise) => by
    rw [spotsWithin, List.mem_append]
    rintro (inside | inside)
    all_goals
      obtain ⟨m, more, -, same⟩ := mem_spots inside
      exact ⟨m, more, same⟩
  | .leave _ | .again _ | .strayEnd _ | .strayElse _ | .set .. | .print .. | .command ..
  | .invalid .. => by simp [spotsWithin]

end

/-- `opened` is nothing, or a block of the statement. -/
def MayOpen (stmt : Stmt) (opened : Option (List Stmt)) : Prop :=
  ∀ block ∈ opened, ∃ part, stmt.block? part = some block

theorem mayOpen_none (stmt : Stmt) : stmt.MayOpen none := by simp [MayOpen]

theorem mayOpen_block? (stmt : Stmt) (part : Part) : stmt.MayOpen (stmt.block? part) :=
  fun _ inside => ⟨part, inside⟩

theorem spots_sublist_within {stmt : Stmt} {part : Part} {block : List Stmt}
    (inside : stmt.block? part = some block) (path : List Nat) :
    (spots path 0 block).Sublist (stmt.spotsWithin path) := by
  unfold block? at inside
  split at inside
  case h_1 otherwise =>
    obtain rfl := Option.some.inj inside
    cases otherwise with
    | none => exact List.Sublist.refl _
    | some otherwise => exact List.sublist_append_left _ _
  case h_5 =>
    subst inside
    exact List.sublist_append_right _ _
  case h_6 => cases inside
  all_goals
    obtain rfl := Option.some.inj inside
    exact List.Sublist.refl _

theorem mem_spots_of_getElem? {block : List Stmt} {i : Nat} {stmt : Stmt}
    (place : block[i]? = some stmt) (path : List Nat) (n : Nat) :
    (path ++ [n + i + 1], stmt) ∈ spots path n block := by
  induction block generalizing i n with
  | nil => cases place
  | cons first rest ih =>
    rw [spots, List.mem_cons, List.mem_append]
    cases i with
    | zero =>
      obtain rfl := Option.some.inj place
      exact .inl rfl
    | succ i =>
      have later := ih place (n + 1)
      rw [show n + 1 + i + 1 = n + (i + 1) + 1 by omega] at later
      exact .inr (.inr later)

end Stmt

/-! ### What lies ahead -/

/-- The address of the statement that the innermost frame has executed last, which is where the
block on top of these frames belongs. -/
def pathOf : List Frame → List Nat
  | [] => []
  | f :: frames => pathOf frames ++ [f.next]

/-- The statements that a stack has still to come to, if it enters every block. -/
def ahead : List Frame → List (List Nat × Stmt)
  | [] => []
  | f :: frames => Stmt.spots (pathOf frames) f.next (f.stmts.drop f.next) ++ ahead frames

theorem ahead_start (body : List Stmt) : ahead [.new .block body] = Stmt.spots [] 0 body :=
  List.append_nil _

theorem ahead_next {f : Frame} {stmt : Stmt} (next : f.stmts[f.next]? = some stmt)
    (frames : List Frame) :
    ahead (f :: frames) = (pathOf frames ++ [f.next + 1], stmt) ::
      (stmt.spotsWithin (pathOf frames ++ [f.next + 1]) ++
        ahead ({ f with next := f.next + 1 } :: frames)) := by
  rw [ahead, Frame.left_next next, Stmt.spots, List.cons_append, List.append_assoc]
  rfl

theorem ahead_end {f : Frame} (atEnd : f.stmts[f.next]? = none) (frames : List Frame) :
    ahead (f :: frames) = ahead frames := by
  rw [ahead, Frame.left_end atEnd, Stmt.spots, List.nil_append]

theorem address_lt {path more more' : List Nat} {m n : Nat} (less : m < n) :
    path ++ m :: more < path ++ n :: more' := by
  induction path with
  | nil => exact .rel less
  | cons x path ih => exact .cons ih

theorem address_lt_within (path more : List Nat) (m : Nat) : path < path ++ m :: more := by
  induction path with
  | nil => exact .nil
  | cons x path ih => exact .cons ih

/-- Whatever a stack has still to come to comes behind what stands above it. -/
theorem pathOf_lt_ahead {frames : List Frame} {spot : List Nat × Stmt} (later : spot ∈ ahead frames)
    (more : List Nat) : pathOf frames ++ more < spot.1 := by
  induction frames generalizing more with
  | nil => cases later
  | cons f frames ih =>
    rw [pathOf, List.append_assoc]
    rcases List.mem_append.1 later with own | below
    · obtain ⟨m, rest, above, same⟩ := Stmt.mem_spots own
      rw [same]
      exact address_lt above
    · exact ih below _

theorem ahead_opened {stmt : Stmt} {opened : Option (List Stmt)} (opens : stmt.MayOpen opened)
    (f : Frame) (frames : List Frame) :
    ∃ inner, inner.Sublist (stmt.spotsWithin (pathOf (f :: frames))) ∧
      ahead ((opened.map (Frame.new .block)).toList ++ f :: frames) =
        inner ++ ahead (f :: frames) := by
  cases opened with
  | none => exact ⟨[], List.nil_sublist _, rfl⟩
  | some block =>
    obtain ⟨part, inside⟩ := opens block rfl
    exact ⟨_, Stmt.spots_sublist_within inside _, rfl⟩

/-! ### One way through -/

/-- Having executed the statements `done` of a program without loops, a walk is at `frames`: it has
gone forward only, and has left out no statement of the program's own block. -/
structure Straight (body : List Stmt) (done : List (List Nat × Stmt)) (frames : List Frame) :
    Prop where
  blocks : hasLoop frames = false
  sublist : (done ++ ahead frames).Sublist (Stmt.spots [] 0 body)
  ascending : done.Pairwise (·.1 < ·.1)
  forward : ∀ spot ∈ done, ∀ later ∈ ahead frames, spot.1 < later.1
  complete : ∀ i stmt, body[i]? = some stmt → ([i + 1], stmt) ∈ done ++ ahead frames

namespace Straight

variable {body : List Stmt} {done : List (List Nat × Stmt)} {f : Frame} {frames : List Frame}
  {stmt : Stmt}

theorem start (body : List Stmt) : Straight body [] [.new .block body] where
  blocks := rfl
  sublist := by simp [ahead_start]
  ascending := .nil
  forward := by simp
  complete i stmt place := by
    have inside := Stmt.mem_spots_of_getElem? place [] 0
    rwa [List.nil_append, Nat.zero_add, ← ahead_start] at inside

theorem execute (straight : Straight body done (f :: frames))
    (next : f.stmts[f.next]? = some stmt) {opened : Option (List Stmt)}
    (opens : stmt.MayOpen opened) :
    Straight body (done ++ [(pathOf frames ++ [f.next + 1], stmt)])
      ((opened.map (Frame.new .block)).toList ++ { f with next := f.next + 1 } :: frames) := by
  obtain ⟨inner, within, left⟩ := ahead_opened opens { f with next := f.next + 1 } frames
  obtain ⟨blocks, sublist, ascending, forward, complete⟩ := straight
  rw [ahead_next next] at sublist forward complete
  have kept := within.append (List.Sublist.refl (ahead ({ f with next := f.next + 1 } :: frames)))
  rw [← left] at kept
  constructor
  · cases opened <;> exact blocks
  · rw [List.append_assoc]
    exact ((List.Sublist.refl done).append (kept.cons_cons _)).trans sublist
  · rw [List.pairwise_append]
    refine ⟨ascending, List.pairwise_singleton _ _, fun spot before last single => ?_⟩
    rw [List.mem_singleton.1 single]
    exact forward spot before _ List.mem_cons_self
  · intro spot before later ahead
    have ahead := kept.subset ahead
    rcases List.mem_append.1 before with before | last
    · exact forward spot before later (List.mem_cons_of_mem _ ahead)
    · rw [List.mem_singleton.1 last]
      rcases List.mem_append.1 ahead with inside | behind
      · obtain ⟨m, more, same⟩ := Stmt.mem_spotsWithin inside
        rw [same]
        exact address_lt_within _ _ _
      · have := pathOf_lt_ahead behind []
        rwa [List.append_nil] at this
  · intro i top place
    rcases List.mem_append.1 (complete i top place) with before | ahead
    · simp [before]
    · rcases List.mem_cons.1 ahead with current | ahead
      · simp [current]
      · rcases List.mem_append.1 ahead with inside | behind
        · -- an address within a statement has more than one number
          obtain ⟨m, more, same⟩ := Stmt.mem_spotsWithin inside
          have length := congrArg List.length same
          simp only [List.length_append, List.length_cons, List.length_nil] at length
          omega
        · rw [left]
          simp [behind]

theorem finish (straight : Straight body done (f :: frames)) (atEnd : f.stmts[f.next]? = none) :
    Straight body done frames := by
  obtain ⟨blocks, sublist, ascending, forward, complete⟩ := straight
  rw [ahead_end atEnd] at sublist forward complete
  exact ⟨(hasLoop_eq_false_iff.1 blocks).2, sublist, ascending, forward, complete⟩

end Straight

/-! ### What is left to do -/

/-- What a stack costs at most: a step for each statement ahead, and one for the end of each block
it may open and of each block that is open. -/
def stepsLeft (frames : List Frame) : Nat := 2 * (ahead frames).length + frames.length

section StepsLeft

variable {f : Frame} {stmt : Stmt} {opened : Option (List Stmt)}

theorem stepsLeft_opened (next : f.stmts[f.next]? = some stmt) (opens : stmt.MayOpen opened)
    (frames : List Frame) :
    stepsLeft ((opened.map (Frame.new .block)).toList ++ { f with next := f.next + 1 } :: frames) <
      stepsLeft (f :: frames) := by
  obtain ⟨inner, within, left⟩ := ahead_opened opens { f with next := f.next + 1 } frames
  have shorter := within.length_le
  have pushed : (opened.map (Frame.new .block)).toList.length ≤ 1 := by cases opened <;> simp
  rw [stepsLeft, stepsLeft, left, ahead_next next]
  simp only [List.length_append, List.length_cons, pathOf] at shorter ⊢
  omega

theorem stepsLeft_end (atEnd : f.stmts[f.next]? = none) (frames : List Frame) :
    stepsLeft frames < stepsLeft (f :: frames) := by
  rw [stepsLeft, stepsLeft, ahead_end atEnd, List.length_cons]
  omega

end StepsLeft

namespace Host

variable {σ : Type} {host : Host σ}

/-! ### Outside of loops -/

variable (host) in
/-- What a statement that no loop encloses does when it is executed: it makes its line the current
one and has its own effect, which may be to open one of its blocks. -/
inductive Does : Stmt → σ → Option (List Stmt) → σ → Prop
  | act {stmt s t} (acts : host.Acts stmt (host.jump stmt.line s) t) : Does stmt s none t
  | branchThen {line c body otherwise s t}
    (test : host.Decides line c (host.jump line s) (some true) t) :
    Does (.branch line c body otherwise) s (some body) t
  | branchElse {line c body otherwise s t}
    (test : host.Decides line c (host.jump line s) (some false) t) :
    Does (.branch line c body otherwise) s otherwise t
  | branchFault {line c body otherwise s t}
    (test : host.Decides line c (host.jump line s) none t) :
    Does (.branch line c body otherwise) s none t
  | group {line body s} : Does (.group line true body) s (some body) (host.jump line s)
  | groupOpen {line body s} :
    Does (.group line false body) s (some body)
      (host.warning "Expected END" line (host.jump line s))
  | leave {line s} :
    Does (.leave line) s none (host.warning "BREAK outside of a loop" line (host.jump line s))
  | again {line s} :
    Does (.again line) s none (host.warning "CONTINUE outside of a loop" line (host.jump line s))

variable (host) in
/-- From `s` a walk of `body` gets to a configuration, and the statements `done` are what it has
executed on the way. A step has the effect of the statement that is next in the innermost frame, or
closes a block that is at its end and changes nothing else. -/
inductive Traverses (body : List Stmt) (s : σ) :
    List (List Nat × Stmt) → List Frame × σ → Prop
  | start : Traverses body s [] ([.new .block body], s)
  | execute {done f frames stmt opened t u} (before : Traverses body s done (f :: frames, t))
    (running : host.running t = true) (next : f.stmts[f.next]? = some stmt)
    (does : host.Does stmt t opened u)
    (stepped : host.step f frames t =
      ((opened.map (Frame.new .block)).toList ++ { f with next := f.next + 1 } :: frames, u)) :
    Traverses body s (done ++ [(pathOf frames ++ [f.next + 1], stmt)])
      ((opened.map (Frame.new .block)).toList ++ { f with next := f.next + 1 } :: frames, u)
  | close {done f frames t} (before : Traverses body s done (f :: frames, t))
    (running : host.running t = true) (atEnd : f.stmts[f.next]? = none)
    (stepped : host.step f frames t = (frames, t)) : Traverses body s done (frames, t)

variable {body : List Stmt} {done : List (List Nat × Stmt)} {f : Frame} {frames : List Frame}
  {stmt : Stmt} {opened : Option (List Stmt)} {s t : σ}

theorem Does.mayOpen (does : host.Does stmt s opened t) : stmt.MayOpen opened := by
  cases does with
  | branchThen => exact Stmt.mayOpen_block? _ .body
  | branchElse => exact Stmt.mayOpen_block? _ .otherwise
  | group | groupOpen => exact Stmt.mayOpen_block? _ .body
  | act | branchFault | leave | again => exact Stmt.mayOpen_none _

/-- Outside of loops the walker has a statement do what it does, and takes nothing off the stack. -/
theorem does_execute (host : Host σ) (plain : stmt.isLoop = false)
    (outside : hasLoop frames = false) (s : σ) :
    ∃ opened t, host.Does stmt s opened t ∧ host.execute stmt frames (host.jump stmt.line s) =
      ((opened.map (Frame.new .block)).toList ++ frames, t) := by
  cases stmt with
  | branch line c body otherwise =>
    rw [execute]
    obtain ⟨t, checked, test⟩ | ⟨e, _ | _, t, -, checked, test⟩ :=
      host.decides_of_check? c line (host.jump line s)
    · exact ⟨none, t, .branchFault test, by rw [Stmt.line, checked]; rfl⟩
    · exact ⟨otherwise, t, .branchElse test, by rw [Stmt.line, checked]⟩
    · exact ⟨some body, t, .branchThen test, by rw [Stmt.line, checked]; rfl⟩
  | loop | forever => cases plain
  | group line closed body =>
    cases closed with
    | true => exact ⟨some body, _, .group, rfl⟩
    | false => exact ⟨some body, _, .groupOpen, rfl⟩
  | leave line =>
    rw [execute, leaveLoop?_eq_none outside]
    exact ⟨none, _, .leave, rfl⟩
  | again line =>
    rw [execute, endPass?_eq_none outside]
    exact ⟨none, _, .again, rfl⟩
  | strayEnd => exact ⟨none, _, .act .strayEnd, rfl⟩
  | strayElse => exact ⟨none, _, .act .strayElse, rfl⟩
  | invalid => exact ⟨none, _, .act .invalid, rfl⟩
  | set line name e =>
    obtain ⟨t, acts⟩ := acts_set host line name e (host.jump line s)
    exact ⟨none, t, .act acts, execute_of_acts acts _⟩
  | print line newline e =>
    obtain ⟨t, acts⟩ := acts_print host line newline e (host.jump line s)
    exact ⟨none, t, .act acts, execute_of_acts acts _⟩
  | command line text =>
    obtain ⟨t, acts⟩ := acts_command host line text (host.jump line s)
    exact ⟨none, t, .act acts, execute_of_acts acts _⟩

/-! ### Walks -/

theorem Traverses.straight {config : List Frame × σ}
    (traverses : host.Traverses body s done config) : Straight body done config.1 := by
  induction traverses with
  | start => exact .start body
  | execute _ _ next does _ ih => exact ih.execute next does.mayOpen
  | close _ _ atEnd _ ih => exact ih.finish atEnd

theorem Traverses.reaches {config : List Frame × σ}
    (traverses : host.Traverses body s done config) : host.Reaches body s config := by
  induction traverses with
  | start => exact .start
  | execute _ running _ _ stepped ih =>
    rw [← stepped]
    exact ih.step running
  | close _ running _ stepped ih =>
    rw [← stepped]
    exact ih.step running

theorem Traverses.mem_preorder (traverses : host.Traverses body s done (f :: frames, t))
    (next : f.stmts[f.next]? = some stmt) : stmt ∈ Stmt.preorder body := by
  have spot := traverses.straight.sublist.subset (List.mem_append_right _
    (ahead_next next frames ▸ List.mem_cons_self))
  rw [← Stmt.map_spots [] 0 body]
  exact List.mem_map_of_mem spot

/-- Without loops every step goes forward, and there is less to do after it. -/
theorem Traverses.step (loopFree : ∀ stmt ∈ Stmt.preorder body, stmt.isLoop = false)
    (traverses : host.Traverses body s done (f :: frames, t)) (running : host.running t = true) :
    ∃ done', host.Traverses body s done' (host.step f frames t) ∧
      stepsLeft (host.step f frames t).1 < stepsLeft (f :: frames) := by
  have blocks := traverses.straight.blocks
  cases next : f.stmts[f.next]? with
  | some stmt =>
    have outside : hasLoop ({ f with next := f.next + 1 } :: frames) = false := blocks
    obtain ⟨opened, u, does, executed⟩ :=
      host.does_execute (loopFree stmt (traverses.mem_preorder next)) outside t
    rw [← step_next next] at executed
    rw [executed]
    exact ⟨_, .execute traverses running next does executed,
      stepsLeft_opened next does.mayOpen frames⟩
  | none =>
    have closed : host.step f frames t = (frames, t) := by
      rw [step_end next, wrapUp_block (hasLoop_eq_false_iff.1 blocks).1]
    rw [closed]
    exact ⟨_, .close traverses running next closed, stepsLeft_end next frames⟩

theorem walk_of_stepsLeft (loopFree : ∀ stmt ∈ Stmt.preorder body, stmt.isLoop = false)
    (unstopped : ∀ config, host.Reaches body s config → host.running config.2 = true)
    {fuel : Nat} (traverses : host.Traverses body s done (frames, t))
    (enough : stepsLeft frames ≤ fuel) :
    ∃ executed u, host.walk fuel frames t = some (.endOfScript, u) ∧
      host.Traverses body s executed ([], u) := by
  have running : host.running t = true := unstopped _ traverses.reaches
  induction fuel generalizing done frames t with
  | zero =>
    cases frames with
    | nil => exact ⟨done, t, by rw [walk, if_pos running], traverses⟩
    | cons f frames =>
      rw [stepsLeft, List.length_cons] at enough
      omega
  | succ fuel ih =>
    cases frames with
    | nil => exact ⟨done, t, by rw [walk, if_pos running], traverses⟩
    | cons f frames =>
      obtain ⟨done', onward, less⟩ := traverses.step loopFree running
      rw [walk, if_pos running]
      exact ih onward (show stepsLeft (host.step f frames t).1 ≤ fuel by omega)
        (unstopped _ onward.reaches)

/-- A walk that has come to the end of its program has been running all along. -/
theorem running_of_reaches {fuel : Nat} {u : σ} {config : List Frame × σ}
    (ended : host.walkProgram fuel body s = some (.endOfScript, u))
    (reaches : host.Reaches body s config) : host.running config.2 = true := by
  obtain ⟨steps, onward⟩ := walkProgram_of_reaches reaches
  cases running : host.running config.2 with
  | true => rfl
  | false =>
    have stopped : host.walk 1 config.1 config.2 = some (.stopped, config.2) := by
      cases config.1 <;> simp [walk, running]
    cases walk_unique ended ((onward 1).trans stopped)

end Host

/-! ### The lines gone to -/

/-- The lines that become the current one in the course of these events. -/
def Event.lines (events : List Event) : List Nat :=
  events.filterMap fun
    | .jump line => some line
    | _ => none

namespace Event

theorem lines_append (before later : List Event) :
    lines (before ++ later) = lines before ++ lines later :=
  List.filterMap_append

theorem lines_concat (events : List Event) {event : Event} (stays : lines [event] = []) :
    lines (events ++ [event]) = lines events := by
  rw [lines_append, stays, List.append_nil]

end Event

namespace Host

open Event (lines lines_append lines_concat)

variable {σ : Type} {host : Host σ} {body : List Stmt} {done : List (List Nat × Stmt)}
  {frames : List Frame} {s t : σ}

theorem lines_value? (host : Host σ) (e : Expr) (line : Nat) (r : σ × List Event) :
    lines (host.logged.value? e line r).2.2 = lines r.2 := by
  unfold value?
  rcases read : host.evaluate e r.1 with ⟨fault | v, t⟩ <;> simp only [logged, read]
  exact lines_concat _ rfl

theorem lines_check? (host : Host σ) (c : Condition) (line : Nat) (r : σ × List Event) :
    lines (host.logged.check? c line r).2.2 = lines r.2 := by
  cases c with
  | error fault => exact lines_concat _ rfl
  | ok e => exact host.lines_value? e line r

/-- To execute a statement does not change the current line. -/
theorem lines_execute (host : Host σ) (stmt : Stmt) (frames : List Frame) (r : σ × List Event) :
    lines (host.logged.execute stmt frames r).2.2 = lines r.2 := by
  cases stmt with
  | branch line c body otherwise | loop line c body =>
    rw [execute, ← host.lines_check? c line r]
    rcases host.logged.check? c line r with ⟨_ | ⟨e, _ | _⟩, t⟩ <;> rfl
  | forever => rfl
  | group line closed body =>
    cases closed with
    | true => rfl
    | false => exact lines_concat _ rfl
  | leave line =>
    rw [execute]
    cases leaveLoop? frames with
    | some frames => rfl
    | none => exact lines_concat _ rfl
  | again line =>
    rw [execute]
    cases endPass? frames with
    | some frames => rfl
    | none => exact lines_concat _ rfl
  | strayEnd | strayElse | invalid => exact lines_concat _ rfl
  | set line name e | print line newline e =>
    rw [execute, ← host.lines_value? e line r]
    rcases host.logged.value? e line r with ⟨_ | v, t⟩
    · rfl
    · exact lines_concat _ rfl
  | command line text =>
    rw [execute]
    rcases carried : host.command text r.1 with ⟨fault | _ | job, t⟩ <;>
      simp only [logged, carried]
    · exact (lines_concat _ rfl).trans (lines_concat r.2 rfl)
    · exact lines_concat r.2 rfl
    · exact (lines_concat _ rfl).trans (lines_concat r.2 rfl)

/-- A watched walk has gone to the lines of the statements it has executed, and to no others. -/
theorem Traverses.watched {config : List Frame × σ}
    (traverses : host.Traverses body s done config) :
    ∃ events, host.logged.Reaches body (s, []) (config.1, config.2, events) ∧
      lines events = done.map (·.2.line) := by
  induction traverses with
  | start => exact ⟨[], .start, rfl⟩
  | @execute done f frames stmt opened t u before running next does stepped ih =>
    obtain ⟨events, reached, gone⟩ := ih
    have onward := reached.step (show host.logged.running (t, events) = true from running)
    have same := host.unlogged_step f frames (t, events)
    have stays := host.lines_execute stmt ({ f with next := f.next + 1 } :: frames)
      (host.logged.jump stmt.line (t, events))
    rw [← step_next next] at stays
    rcases watched : host.logged.step f frames (t, events) with ⟨frames', u', events'⟩
    rw [watched] at onward same stays
    rw [stepped] at same
    cases same
    refine ⟨events', onward, ?_⟩
    rw [List.map_append, ← gone]
    exact stays.trans (lines_append events [.jump stmt.line])
  | @close done f frames t before running atEnd stepped ih =>
    obtain ⟨events, reached, gone⟩ := ih
    have onward := reached.step (show host.logged.running (t, events) = true from running)
    have block := (hasLoop_eq_false_iff.1 before.straight.blocks).1
    rw [step_end atEnd, wrapUp_block block] at onward
    exact ⟨events, onward, gone⟩

/-- The events of a walk to the end of a program, which more fuel does not change. -/
theorem trace?_of_reaches {fuel : Nat} {events : List Event}
    (reached : host.logged.Reaches body (s, []) ([], t, events)) (running : host.running t = true)
    (ended : host.walkProgram fuel body s = some (.endOfScript, t)) :
    host.trace? fuel body s = some events := by
  obtain ⟨steps, onward⟩ := walkProgram_of_reaches reached
  have watched : host.logged.walkProgram (0 + steps) body (s, []) =
      some (.endOfScript, t, events) := by
    rw [onward, walk, if_pos (show host.logged.running (t, events) = true from running)]
  have same := host.walk_logged fuel [.new .block body] (s, [])
  rw [show host.walk fuel [.new .block body] s = _ from ended] at same
  obtain ⟨answer, walked, -⟩ := Option.map_eq_some_iff.1 same
  rw [trace?, show host.logged.walkProgram fuel body (s, []) = _ from walked,
    walk_unique walked watched]
  rfl

/-- A program without loops that nobody stops ends, after two steps at most for each of its
statements and one more. It goes through its statements in pre-order, executing each of them once at
most, and all those that stand in no other. Their effects, one after the other, lead from its start
to its end, and their lines are those it makes the current one. -/
theorem loopFree_walk_ends (host : Host σ) (body : List Stmt) (s : σ)
    (loopFree : ∀ stmt ∈ Stmt.preorder body, stmt.isLoop = false)
    (unstopped : ∀ config, host.Reaches body s config → host.running config.2 = true) :
    ∃ t executed events,
      (∀ fuel, 2 * (Stmt.preorder body).length + 1 ≤ fuel →
        host.walkProgram fuel body s = some (.endOfScript, t) ∧
        host.trace? fuel body s = some events) ∧
      host.Traverses body s executed ([], t) ∧
      Event.lines events = executed.map (·.2.line) ∧
      executed.Sublist (Stmt.spots [] 0 body) ∧
      (executed.map (·.2)).Sublist (Stmt.preorder body) ∧
      executed.Pairwise (·.1 < ·.1) ∧
      ∀ i stmt, body[i]? = some stmt → ([i + 1], stmt) ∈ executed := by
  have size : stepsLeft [.new .block body] = 2 * (Stmt.preorder body).length + 1 := by
    rw [stepsLeft, ahead_start, ← Stmt.map_spots [] 0 body, List.length_map]
    rfl
  have ends (fuel : Nat) (enough : 2 * (Stmt.preorder body).length + 1 ≤ fuel) :
      ∃ executed u, host.walkProgram fuel body s = some (.endOfScript, u) ∧
        host.Traverses body s executed ([], u) :=
    walk_of_stepsLeft loopFree unstopped .start (size ▸ enough)
  obtain ⟨executed, t, walked, traverses⟩ := ends _ (Nat.le_refl _)
  obtain ⟨events, reached, gone⟩ := traverses.watched
  have straight := traverses.straight
  have sublist := straight.sublist
  rw [ahead, List.append_nil] at sublist
  refine ⟨t, executed, events, ?_, traverses, gone, sublist, ?_, straight.ascending, ?_⟩
  · intro fuel enough
    obtain ⟨-, u, walked', -⟩ := ends fuel enough
    obtain rfl := (Prod.mk.inj (walk_unique walked walked')).2
    exact ⟨walked', trace?_of_reaches reached (unstopped _ traverses.reaches) walked'⟩
  · rw [← Stmt.map_spots [] 0 body]
    exact sublist.map _
  · intro i stmt place
    have found := straight.complete i stmt place
    rwa [ahead, List.append_nil] at found

end Host

/-- A branch with jumps and keywords out of place, a group without its end, and an assignment that
fails. -/
def wayward : List Stmt :=
  [.branch 1 (.ok (.literal (.bool false))) [.strayEnd 2] (some [.leave 4, .strayElse 5]),
    .group 6 false [.again 7], .set 8 "n" (.variable "m")]

theorem loopFree_walk_ends_wayward : (∀ stmt ∈ Stmt.preorder wayward, stmt.isLoop = false) ∧
    ∃ t executed events, Run.host.walkProgram 15 wayward Run.idle = some (.endOfScript, t) ∧
      Run.host.trace? 15 wayward Run.idle = some events ∧
      Run.host.Traverses wayward Run.idle executed ([], t) ∧
      Event.lines events = executed.map (·.2.line) ∧
      executed.Sublist (Stmt.spots [] 0 wayward) ∧ executed.Pairwise (·.1 < ·.1) ∧
      ([3], .set 8 "n" (.variable "m")) ∈ executed := by
  have loopFree : ∀ stmt ∈ Stmt.preorder wayward, stmt.isLoop = false := by decide
  have ended : Run.host.walkProgram 15 wayward Run.idle = some (.endOfScript, _) := rfl
  obtain ⟨t, executed, events, ends, traverses, gone, sublist, -, ascending, complete⟩ :=
    Host.loopFree_walk_ends Run.host wayward Run.idle loopFree
      fun _ reaches => Host.running_of_reaches ended reaches
  obtain ⟨walked, traced⟩ := ends 15 (by decide)
  exact ⟨loopFree, t, executed, events, walked, traced, traverses, gone, sublist, ascending,
    complete 2 _ rfl⟩

end RobotScript
