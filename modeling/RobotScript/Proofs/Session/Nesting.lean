import RobotScript.Proofs.Session.Walk

/-!
# The stack and the tree

Wherever a walk has got to, its stack is a path through the program: the lowest frame holds the
program itself, and every other frame the block that the statement executed last by the frame below
it has opened (`Stacked`). So the stack is never higher than the program is nested, and looking for
a loop on the stack is looking for one around the statement.
-/

namespace RobotScript

/-! ### Blocks in blocks -/

/-- Which block of a statement. Only an `if` has the second one. -/
inductive Part where
  | body | otherwise

namespace Stmt

def block? : Stmt → Part → Option (List Stmt)
  | .branch _ _ body _, .body | .loop _ _ body, .body | .forever _ body, .body
  | .group _ _ body, .body => some body
  | .branch _ _ _ otherwise, .otherwise => otherwise
  | _, _ => none

/-- The block a statement opens, with the kind of frame it is walked in. A condition that could not
be read opens no loop. -/
def opens? : Stmt → Part → Option (FrameKind × List Stmt)
  | .branch _ _ body _, .body | .group _ _ body, .body => some (.block, body)
  | .branch _ _ _ otherwise, .otherwise => otherwise.map (.block, ·)
  | .loop line (.ok e) body, .body => some (.loop line e, body)
  | .forever line body, .body => some (.forever line, body)
  | _, _ => none

def isLoop : Stmt → Bool
  | .loop .. | .forever .. => true
  | _ => false

mutual

/-- How many blocks are open at most while a statement is executed. -/
def depth : Stmt → Nat
  | .branch _ _ body none | .loop _ _ body | .forever _ body | .group _ _ body => nesting body + 1
  | .branch _ _ body (some otherwise) => max (nesting body) (nesting otherwise) + 1
  | _ => 0

def nesting : List Stmt → Nat
  | [] => 0
  | stmt :: rest => max stmt.depth (nesting rest)

end

theorem depth_le_nesting {stmt : Stmt} {block : List Stmt} (member : stmt ∈ block) :
    stmt.depth ≤ nesting block := by
  induction block with
  | nil => cases member
  | cons first rest ih =>
    rw [nesting]
    rcases List.mem_cons.1 member with rfl | later
    · exact Nat.le_max_left _ _
    · exact Nat.le_trans (ih later) (Nat.le_max_right _ _)

theorem nesting_lt_depth {stmt : Stmt} {part : Part} {block : List Stmt}
    (inside : stmt.block? part = some block) : nesting block < stmt.depth := by
  unfold block? at inside
  split at inside
  · rename_i otherwise
    obtain rfl := Option.some.inj inside
    cases otherwise <;> rw [depth] <;> omega
  · obtain rfl := Option.some.inj inside
    rw [depth]; omega
  · obtain rfl := Option.some.inj inside
    rw [depth]; omega
  · obtain rfl := Option.some.inj inside
    rw [depth]; omega
  · subst inside
    rw [depth]; omega
  · cases inside

end Stmt

/-- From the program `body` a path leads down to a block, through the statements `above` it. The
way is written from the block up. -/
inductive Leads (body : List Stmt) : List (Nat × Part) → List Stmt → List Stmt → Prop
  | here : Leads body [] [] body
  | down {path above block n stmt part inner} (outer : Leads body path above block)
    (place : block[n]? = some stmt) (inside : stmt.block? part = some inner) :
    Leads body ((n, part) :: path) (stmt :: above) inner

theorem Leads.length_add_nesting_le {body above block : List Stmt} {path : List (Nat × Part)}
    (leads : Leads body path above block) :
    path.length + Stmt.nesting block ≤ Stmt.nesting body := by
  induction leads with
  | here => simp
  | @down path above block n stmt part inner outer place inside ih =>
    have deeper := Stmt.nesting_lt_depth inside
    have within := Stmt.depth_le_nesting (List.mem_of_getElem? place)
    rw [List.length_cons]
    omega

/-! ### Stacks -/

/-- `f` holds the block that the statement executed last by the frame below it has opened. -/
def Frame.Rests (f below : Frame) : Prop :=
  ∃ n stmt part, below.next = n + 1 ∧ below.stmts[n]? = some stmt ∧
    stmt.opens? part = some (f.kind, f.stmts)

/-- A stack of frames that stand for a path through `body`. The innermost frame comes first. -/
inductive Stacked (body : List Stmt) : List Frame → Prop
  | nil : Stacked body []
  | bottom {f} (kind : f.kind = .block) (whole : f.stmts = body) : Stacked body [f]
  | push {f below frames} (rests : f.Rests below) (lower : Stacked body (below :: frames)) :
    Stacked body (f :: below :: frames)

theorem Stmt.block?_of_opens? {stmt : Stmt} {part : Part} {kind : FrameKind} {block : List Stmt}
    (opens : stmt.opens? part = some (kind, block)) :
    stmt.block? part = some block ∧ stmt.isLoop = (Frame.new kind block).isLoop := by
  unfold opens? at opens
  split at opens
  case h_3 line condition body otherwise =>
    obtain ⟨inner, rfl, same⟩ := Option.map_eq_some_iff.1 opens
    cases same
    exact ⟨rfl, rfl⟩
  all_goals cases opens
  all_goals exact ⟨rfl, rfl⟩

namespace Stacked

variable {body : List Stmt} {f : Frame} {frames : List Frame}

theorem tail (stacked : Stacked body (f :: frames)) : Stacked body frames := by
  cases stacked with
  | bottom => exact .nil
  | push _ lower => exact lower

/-- How far the innermost frame has come does not matter. -/
theorem setNext (stacked : Stacked body (f :: frames)) (n : Nat) :
    Stacked body ({ f with next := n } :: frames) := by
  cases stacked with
  | bottom kind whole => exact .bottom kind whole
  | push rests lower => exact .push rests lower

theorem push_opened {stmt : Stmt} {kind : FrameKind} {block : List Stmt}
    (stacked : Stacked body (f :: frames)) (next : f.stmts[f.next]? = some stmt) (part : Part)
    (opens : stmt.opens? part = some (kind, block)) :
    Stacked body (.new kind block :: { f with next := f.next + 1 } :: frames) :=
  .push ⟨f.next, stmt, part, rfl, next, opens⟩ (stacked.setNext _)

theorem leaveLoop? {frames' : List Frame} (stacked : Stacked body frames)
    (lands : RobotScript.leaveLoop? frames = some frames') : Stacked body frames' := by
  induction frames with
  | nil => cases lands
  | cons f frames ih =>
    rw [RobotScript.leaveLoop?] at lands
    split at lands
    · obtain rfl := Option.some.inj lands
      exact stacked.tail
    · exact ih stacked.tail lands

theorem endPass? {frames' : List Frame} (stacked : Stacked body frames)
    (lands : RobotScript.endPass? frames = some frames') : Stacked body frames' := by
  induction frames with
  | nil => cases lands
  | cons f frames ih =>
    rw [RobotScript.endPass?] at lands
    split at lands
    · obtain rfl := Option.some.inj lands
      exact stacked.setNext _
    · exact ih stacked.tail lands

/-- The path a stack stands for. -/
theorem leads (stacked : Stacked body (f :: frames)) :
    ∃ path above, Leads body path above f.stmts ∧ path.map (·.1 + 1) = frames.map (·.next) ∧
      hasLoop (f :: frames) = above.any Stmt.isLoop := by
  generalize same : f :: frames = stack at stacked
  induction stacked generalizing f frames with
  | nil => cases same
  | bottom kind whole =>
    cases same
    refine ⟨[], [], whole ▸ .here, rfl, ?_⟩
    simp [hasLoop, Frame.isLoop, kind]
  | @push f below lower rests _ ih =>
    cases same
    -- the statement that opened `f` leads one block further down
    obtain ⟨path, above, leads, places, loops⟩ := ih rfl
    obtain ⟨n, stmt, part, next, place, opens⟩ := rests
    obtain ⟨inside, isLoop⟩ := Stmt.block?_of_opens? opens
    refine ⟨(n, part) :: path, stmt :: above, leads.down place inside, ?_, ?_⟩
    · rw [List.map_cons, List.map_cons, places, next]
    · show (f.isLoop || hasLoop (below :: lower)) = (stmt.isLoop || above.any Stmt.isLoop)
      rw [isLoop, loops]
      rfl

end Stacked

namespace Host

variable {σ : Type} {host : Host σ}

/-! ### Steps -/

theorem stacked_execute {body : List Stmt} {f : Frame} {frames : List Frame} {stmt : Stmt}
    (stacked : Stacked body (f :: frames)) (next : f.stmts[f.next]? = some stmt) (s : σ) :
    Stacked body (host.execute stmt ({ f with next := f.next + 1 } :: frames) s).1 := by
  have onward := stacked.setNext (f.next + 1)
  cases stmt with
  | branch line c body otherwise =>
    rw [execute]
    rcases host.check? c line s with ⟨_ | ⟨e, _ | _⟩, t⟩
    · exact onward
    · cases otherwise with
      | none => exact onward
      | some otherwise => exact stacked.push_opened next .otherwise rfl
    · exact stacked.push_opened next .body rfl
  | loop line c body =>
    rw [execute]
    obtain ⟨t, checked, -⟩ | ⟨e, holds, t, rfl, checked, -⟩ := decides_of_check? host c line s
    · rw [checked]
      exact onward
    · rw [checked]
      cases holds with
      | false => exact onward
      | true => exact stacked.push_opened next .body rfl
  | forever line body => exact stacked.push_opened next .body rfl
  | group line closed body => exact stacked.push_opened next .body rfl
  | leave line =>
    rw [execute]
    split
    · exact onward.leaveLoop? ‹_›
    · exact onward
  | again line =>
    rw [execute]
    split
    · exact onward.endPass? ‹_›
    · exact onward
  | strayEnd line => exact onward
  | strayElse line => exact onward
  | invalid line fault => exact onward
  | set line name e =>
    obtain ⟨t, acts⟩ := acts_set host line name e s
    rw [execute_of_acts acts]
    exact onward
  | print line newline e =>
    obtain ⟨t, acts⟩ := acts_print host line newline e s
    rw [execute_of_acts acts]
    exact onward
  | command line text =>
    obtain ⟨t, acts⟩ := acts_command host line text s
    rw [execute_of_acts acts]
    exact onward

theorem stacked_wrapUp {body : List Stmt} {f : Frame} {frames : List Frame}
    (stacked : Stacked body (f :: frames)) (s : σ) :
    Stacked body (host.wrapUp f frames s).1 := by
  unfold wrapUp
  split
  · exact stacked.tail
  · split
    · exact stacked.setNext 0
    · exact stacked.tail
  · exact stacked.setNext 0

theorem stacked_step {body : List Stmt} {f : Frame} {frames : List Frame}
    (stacked : Stacked body (f :: frames)) (s : σ) : Stacked body (host.step f frames s).1 := by
  cases next : f.stmts[f.next]? with
  | some stmt =>
    rw [step_next next]
    exact stacked_execute stacked next _
  | none =>
    rw [step_end next]
    exact stacked_wrapUp stacked s

/-! ### Walks -/

variable (host) in
/-- What a walk of `body` from `s` gets to, step after step. -/
inductive Reaches (body : List Stmt) (s : σ) : List Frame × σ → Prop
  | start : Reaches body s ([.new .block body], s)
  | step {f frames t} (before : Reaches body s (f :: frames, t)) (running : host.running t = true) :
    Reaches body s (host.step f frames t)

theorem stacked_of_reaches {body : List Stmt} {s : σ} {config : List Frame × σ}
    (reaches : host.Reaches body s config) : Stacked body config.1 := by
  induction reaches with
  | start => exact .bottom rfl rfl
  | step _ _ ih => exact stacked_step ih _

/-- The walk goes on from wherever it has got to. -/
theorem walkProgram_of_reaches {body : List Stmt} {s : σ} {config : List Frame × σ}
    (reaches : host.Reaches body s config) :
    ∃ steps, ∀ fuel, host.walkProgram (fuel + steps) body s = host.walk fuel config.1 config.2 := by
  induction reaches with
  | start => exact ⟨0, fun _ => rfl⟩
  | @step f frames t _ running ih =>
    obtain ⟨steps, ih⟩ := ih
    refine ⟨steps + 1, fun fuel => ?_⟩
    rw [show fuel + (steps + 1) = fuel + 1 + steps by omega, ih, walk, if_pos running]

/-! ### Jumps outside of loops -/

variable (host) in
/-- What a step asks of its surroundings, in order. -/
def asks (f : Frame) (frames : List Frame) (s : σ) : List Event :=
  (host.logged.step f frames (s, [])).2.2

end Host

/-- The report on a jump that no loop encloses. -/
def Stmt.strayReport? : Stmt → Option Event
  | .leave line => some (.print true ("WARNING: BREAK outside of a loop. At line " ++ toString line))
  | .again line =>
    some (.print true ("WARNING: CONTINUE outside of a loop. At line " ++ toString line))
  | _ => none

namespace Host

variable {σ : Type} {host : Host σ}

theorem asks_jump {f : Frame} {frames : List Frame} {stmt : Stmt} {report : Event}
    (next : f.stmts[f.next]? = some stmt) (jump : stmt.strayReport? = some report) (s : σ) :
    host.asks f frames s =
      .jump stmt.line :: if hasLoop (f :: frames) then [] else [report] := by
  have onward : hasLoop ({ f with next := f.next + 1 } :: frames) = hasLoop (f :: frames) := rfl
  rw [asks, step_next next]
  cases stmt with
  | leave line =>
    obtain rfl := Option.some.inj jump
    have found := leaveLoop?_isSome ({ f with next := f.next + 1 } :: frames)
    rw [onward] at found
    simp only [execute]
    cases lands : leaveLoop? ({ f with next := f.next + 1 } :: frames) with
    | some landed => rw [← found, lands]; rfl
    | none => rw [← found, lands]; rfl
  | again line =>
    obtain rfl := Option.some.inj jump
    have found := endPass?_isSome ({ f with next := f.next + 1 } :: frames)
    rw [onward] at found
    simp only [execute]
    cases lands : endPass? ({ f with next := f.next + 1 } :: frames) with
    | some landed => rw [← found, lands]; rfl
    | none => rw [← found, lands]; rfl
  | branch | loop | forever | group | strayEnd | strayElse | set | print | command | invalid =>
    cases jump

theorem reported_iff {f : Frame} {frames : List Frame} {stmt : Stmt} {report : Event}
    (next : f.stmts[f.next]? = some stmt) (jump : stmt.strayReport? = some report) (s : σ) :
    report ∈ host.asks f frames s ↔ hasLoop (f :: frames) = false := by
  have other : report ≠ .jump stmt.line := by
    cases stmt <;> cases jump <;> exact Event.noConfusion
  rw [asks_jump next jump, List.mem_cons, or_iff_right other]
  cases hasLoop (f :: frames) <;> simp

/-- The stack is a path through the program wherever a walk has got to, and never higher than the
program is nested. A `break` or `continue` is reported exactly when no loop of the program is
around it. -/
theorem stack_follows_tree (host : Host σ) (body : List Stmt) (s t : σ) (frames : List Frame)
    (reaches : host.Reaches body s (frames, t)) :
    Stacked body frames ∧ frames.length ≤ 1 + Stmt.nesting body ∧
      ∀ f lower, frames = f :: lower → ∃ path above,
        Leads body path above f.stmts ∧ path.map (·.1 + 1) = lower.map (·.next) ∧
        ∀ stmt report, f.stmts[f.next]? = some stmt → stmt.strayReport? = some report →
          (report ∈ host.asks f lower t ↔ ∀ outer ∈ above, outer.isLoop = false) := by
  have stacked := stacked_of_reaches reaches
  refine ⟨stacked, ?_, ?_⟩
  · cases frames with
    | nil => simp
    | cons f lower =>
      obtain ⟨path, above, leads, places, -⟩ := stacked.leads
      have height : path.length = lower.length := by simpa using congrArg List.length places
      have bound := leads.length_add_nesting_le
      rw [List.length_cons]
      omega
  · rintro f lower rfl
    obtain ⟨path, above, leads, places, loops⟩ := stacked.leads
    refine ⟨path, above, leads, places, fun stmt report next jump => ?_⟩
    rw [reported_iff next jump, loops, List.any_eq_false]
    simp

end Host

/-- A loop left from within a group, and a `break` after it. -/
def brokenTwice : List Stmt := [.forever 1 [.group 2 true [.leave 3]], .leave 4]

/-- Before the first `break` the stack is as high as it can be. -/
theorem stack_follows_tree_brokenTwice :
    ∃ frames t, Run.host.Reaches brokenTwice Run.idle (frames, t) ∧ Stacked brokenTwice frames ∧
      frames.length = 1 + Stmt.nesting brokenTwice := by
  have reaches : Run.host.Reaches brokenTwice Run.idle (_, _) := .step (.step .start rfl) rfl
  exact ⟨_, _, reaches, (Host.stack_follows_tree _ _ _ _ _ reaches).1, rfl⟩

end RobotScript
