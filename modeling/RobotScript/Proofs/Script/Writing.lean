import RobotScript.Proofs.Script.Slices

/-!
# Writing programs down

A statement tree can be written as lines in many ways. The statements of a block share an indent,
whatever belongs to a header is deeper than it, and a group is bracketed by `begin` and `end`, with
its lines at any indent that the headers around it allow. Parsing gives the tree back.
-/

namespace RobotScript

open Block

/-- The line is the whole of a statement. -/
inductive Line.Spells (l : Line) : Stmt → Prop
  | leave (bare : l.Bare "break") : l.Spells (.leave l.number)
  | again (bare : l.Bare "continue") : l.Spells (.again l.number)
  | set (word : l.word = "set") : l.Spells (.ofSet l.number l.rest)
  | println (word : l.word = "println") : l.Spells (.ofPrint l.number true l.rest)
  | print (word : l.word = "print") : l.Spells (.ofPrint l.number false l.rest)
  | command (word : l.word ∉ ["if", "while", "set", "println", "print"])
    (more : l.word ∈ ["forever", "else", "begin", "end", "break", "continue"] →
      Text.allBlank l.rest = false) : l.Spells (.command l.number l.text)

/-- The lines are a way to write the statements of a block at an indent. The flag is whether a group
is open around the block; an `end` is stray only where none is, and an `else` only where no `if`
without one stands right before it. -/
inductive Written : Bool → Nat → List Line → List Stmt → Prop
  | nil {grouped indent} : Written grouped indent [] []
  | leaf {grouped indent l s lines stmts} (level : l.indent = indent) (spells : l.Spells s)
    (next : Written grouped indent lines stmts) : Written grouped indent (l :: lines) (s :: stmts)
  | branch {grouped indent deep l block lines inside stmts} (level : l.indent = indent)
    (word : l.word = "if") (body : Written grouped deep block inside)
    (deeper : ∀ m ∈ block, indent < m.indent) (alone : ∀ n, stmts.head? ≠ some (.strayElse n))
    (next : Written grouped indent lines stmts) :
    Written grouped indent (l :: (block ++ lines))
      (.branch l.number (Expr.ofText l.rest) inside none :: stmts)
  | branchElse {grouped indent deep deep' l block e block' lines inside otherwise stmts}
    (level : l.indent = indent) (word : l.word = "if") (body : Written grouped deep block inside)
    (deeper : ∀ m ∈ block, indent < m.indent) (level' : e.indent = indent) (bare : e.Bare "else")
    (body' : Written grouped deep' block' otherwise) (deeper' : ∀ m ∈ block', indent < m.indent)
    (next : Written grouped indent lines stmts) :
    Written grouped indent (l :: (block ++ e :: (block' ++ lines)))
      (.branch l.number (Expr.ofText l.rest) inside (some otherwise) :: stmts)
  | loop {grouped indent deep l block lines inside stmts} (level : l.indent = indent)
    (word : l.word = "while") (body : Written grouped deep block inside)
    (deeper : ∀ m ∈ block, indent < m.indent) (next : Written grouped indent lines stmts) :
    Written grouped indent (l :: (block ++ lines))
      (.loop l.number (Expr.ofText l.rest) inside :: stmts)
  | forever {grouped indent deep l block lines inside stmts} (level : l.indent = indent)
    (bare : l.Bare "forever") (body : Written grouped deep block inside)
    (deeper : ∀ m ∈ block, indent < m.indent) (next : Written grouped indent lines stmts) :
    Written grouped indent (l :: (block ++ lines)) (.forever l.number inside :: stmts)
  | group {grouped indent any l block e lines inside stmts} (level : l.indent = indent)
    (bare : l.Bare "begin") (body : Written true any block inside) (close : e.Bare "end")
    (next : Written grouped indent lines stmts) :
    Written grouped indent (l :: (block ++ e :: lines)) (.group l.number true inside :: stmts)
  | strayEnd {indent l lines stmts} (level : l.indent = indent) (bare : l.Bare "end")
    (next : Written false indent lines stmts) :
    Written false indent (l :: lines) (.strayEnd l.number :: stmts)
  | strayElse {grouped indent l lines stmts} (level : l.indent = indent) (bare : l.Bare "else")
    (next : Written grouped indent lines stmts) :
    Written grouped indent (l :: lines) (.strayElse l.number :: stmts)

theorem kind_of_spells {l : Line} {s : Stmt} (spells : l.Spells s) : l.kind = .single s := by
  cases spells with
  | leave bare | again bare => simp [kind_eq, Line.Bare, bare.1, bare.2]
  | set word | println word | print word => simp [kind_eq, Line.Bare, word]
  | command word more => grind [kind_eq, Line.Bare]

section Lines

variable {l e : Line} {indent : Nat} {block lines : List Line} {stmts : List Stmt} {grouped : Bool}

/-! ### Groups -/

/-- The lines open as many groups as they close, and close none that they have not opened. -/
def Balanced (lines : List Line) : Prop :=
  ∀ depth rest, splitGroup? depth (lines ++ rest) =
    (splitGroup? depth rest).map fun (inside, next) => (lines ++ inside, next)

theorem balanced_nil : Balanced [] := by
  intro depth rest
  cases found : splitGroup? depth rest <;> simp [found]

theorem Balanced.append (first : Balanced block) (second : Balanced lines) :
    Balanced (block ++ lines) := by
  intro depth rest
  rw [List.append_assoc, first, second, Option.map_map]
  simp [Function.comp_def]

theorem balanced_singleton {kind : Line.Kind} (plain : l.kind = kind) (noBegin : kind ≠ .opening)
    (noEnd : kind ≠ .closing) : Balanced [l] := by
  intro depth rest
  have notBegin : l.isBegin = false := by
    rw [Bool.eq_false_iff]
    exact fun word => noBegin (plain.symm.trans (kind_of_begin (isBegin_iff.1 word)))
  have notEnd : l.isEnd = false := by
    rw [Bool.eq_false_iff]
    exact fun word => noEnd (plain.symm.trans (kind_of_end (isEnd_iff.1 word)))
  simp [splitGroup?, notBegin, notEnd]

theorem splitGroup?_end (close : e.Bare "end") (depth : Nat) (lines : List Line) :
    splitGroup? depth (e :: lines) =
      match depth with
      | 0 => some ([], lines)
      | depth + 1 => (splitGroup? depth lines).map fun (inside, next) => (e :: inside, next) := by
  have notBegin : e.isBegin = false := by
    rw [Bool.eq_false_iff]
    intro word
    have both := (isBegin_iff.1 word).1
    rw [close.1] at both
    revert both
    decide
  cases depth <;> simp [splitGroup?, notBegin, isEnd_iff.2 close]

theorem balanced_group (bare : l.Bare "begin") (balanced : Balanced block) (close : e.Bare "end") :
    Balanced (l :: (block ++ [e])) := by
  intro depth rest
  simp only [List.cons_append, List.append_assoc, List.nil_append, splitGroup?, isBegin_iff.2 bare,
    if_true]
  rw [balanced, splitGroup?_end close]
  simp [Function.comp_def]

theorem Written.balanced (written : Written grouped indent lines stmts) (inside : grouped = true) :
    Balanced lines := by
  -- the flag stays up on the way down, so no line within is a stray `end`
  induction written with
  | nil => exact balanced_nil
  | leaf _ spells _ ih =>
    exact (balanced_singleton (kind_of_spells spells) nofun nofun).append (ih inside)
  | branch _ word _ _ _ _ ih ihNext =>
    have head := balanced_singleton (kind_of_if word) nofun nofun
    exact head.append ((ih inside).append (ihNext inside))
  | branchElse _ word _ _ _ bare _ _ _ ih ihElse ihNext =>
    have head := balanced_singleton (kind_of_if word) nofun nofun
    have mark := balanced_singleton (kind_of_else bare) nofun nofun
    exact head.append ((ih inside).append (mark.append ((ihElse inside).append (ihNext inside))))
  | loop _ word _ _ _ ih ihNext =>
    have head := balanced_singleton (kind_of_while word) nofun nofun
    exact head.append ((ih inside).append (ihNext inside))
  | forever _ bare _ _ _ ih ihNext =>
    have head := balanced_singleton (kind_of_forever bare) nofun nofun
    exact head.append ((ih inside).append (ihNext inside))
  | group _ bare _ close _ ih ihNext =>
    have bracketed := balanced_group bare (ih rfl) close
    simpa using bracketed.append (ihNext inside)
  | strayEnd => cases inside
  | strayElse _ bare _ ih =>
    exact (balanced_singleton (kind_of_else bare) nofun nofun).append (ih inside)

theorem Written.splitGroup?_eq (written : Written true indent block stmts) (close : e.Bare "end")
    (lines : List Line) : splitGroup? 0 (block ++ e :: lines) = some (block, lines) := by
  rw [written.balanced rfl, splitGroup?_end close]
  simp

/-! ### Blocks -/

theorem Written.indent_head (written : Written grouped indent lines stmts) :
    ∀ b ∈ lines.head?, b.indent = indent := by
  intro b first
  cases written <;> cases first <;> assumption

theorem Written.elseBranch?_eq_none (written : Written grouped indent lines stmts)
    (alone : ∀ n, stmts.head? ≠ some (.strayElse n)) : elseBranch? indent lines = none := by
  have plain : ∀ {l : Line} {kind : Line.Kind} {lines : List Line}, l.kind = kind →
      kind ≠ .otherwise → elseBranch? indent (l :: lines) = none := by
    intro l kind lines plain other
    have notElse : l.isElse = false := by
      rw [Bool.eq_false_iff]
      exact fun word => other (plain.symm.trans (kind_of_else (isElse_iff.1 word)))
    simp [elseBranch?, notElse]
  cases written with
  | nil => rfl
  | leaf _ spells => exact plain (kind_of_spells spells) (by simp)
  | branch _ word | branchElse _ word => exact plain (kind_of_if word) (by simp)
  | loop _ word => exact plain (kind_of_while word) (by simp)
  | forever _ bare => exact plain (kind_of_forever bare) (by simp)
  | group _ bare => exact plain (kind_of_begin bare) (by simp)
  | strayEnd _ bare => exact plain (kind_of_end bare) (by simp)
  | strayElse => exact absurd rfl (alone _)

theorem body_block (deeper : ∀ m ∈ block, indent < m.indent)
    (ends : ∀ b ∈ lines.head?, b.indent = indent) : body indent (block ++ lines) = block := by
  have whole : body indent block = block := by
    rw [body, List.takeWhile_eq_self_iff]
    simpa using deeper
  rw [body_append fun b first => (ends b first).le, whole]

theorem after_block (deeper : ∀ m ∈ block, indent < m.indent)
    (ends : ∀ b ∈ lines.head?, b.indent = indent) : after indent (block ++ lines) = lines := by
  have parts := body_append_after indent (block ++ lines)
  rw [body_block deeper ends] at parts
  exact List.append_cancel_left parts

theorem Written.parse_eq (written : Written grouped indent lines stmts) : parse lines = stmts := by
  -- what follows a body starts at the indent of its header, so the cut by indents ends there
  induction written with
  | nil => simp [parse]
  | leaf _ spells _ ih => simp [parse_cons, cut, Line.stmt, kind_of_spells spells, ih]
  | branch level word _ deeper alone next ih ihNext =>
    subst level
    have ends := next.indent_head
    simp [parse_cons, cut, Line.stmt, kind_of_if word, body_block deeper ends,
      after_block deeper ends, next.elseBranch?_eq_none alone, ih, ihNext]
  | @branchElse _ _ _ _ l block e block' lines _ _ _ level word _ deeper level' bare _ deeper' next
      ih ihElse ihNext =>
    subst level
    have ends := next.indent_head
    have mark : ∀ b ∈ (e :: (block' ++ lines)).head?, b.indent = l.indent := by
      rintro b ⟨⟩
      exact level'
    simp [parse_cons, cut, Line.stmt, kind_of_if word, body_block deeper mark,
      after_block deeper mark, elseBranch?, level', isElse_iff.2 bare, body_block deeper' ends,
      after_block deeper' ends, ih, ihElse, ihNext]
  | loop level word _ deeper next ih ihNext =>
    subst level
    have ends := next.indent_head
    simp [parse_cons, cut, Line.stmt, kind_of_while word, body_block deeper ends,
      after_block deeper ends, ih, ihNext]
  | forever level bare _ deeper next ih ihNext =>
    subst level
    have ends := next.indent_head
    simp [parse_cons, cut, Line.stmt, kind_of_forever bare, body_block deeper ends,
      after_block deeper ends, ih, ihNext]
  | group _ bare body close _ ih ihNext =>
    simp [parse_cons, cut, Line.stmt, kind_of_begin bare, body.splitGroup?_eq close, ih, ihNext]
  | strayEnd _ bare _ ih => simp [parse_cons, cut, Line.stmt, kind_of_end bare, ih]
  | @strayElse _ _ l lines _ level bare next ih =>
    subst level
    have nothing : after l.indent ([] ++ lines) = lines := after_block (by simp) next.indent_head
    rw [List.nil_append] at nothing
    simp [parse_cons, cut, Line.stmt, kind_of_else bare, nothing, ih]

end Lines

/-- However a program is written down, parsing gives it back. -/
theorem ofLines_written (program : Program) (indent : Nat) (lines : List Line)
    (written : Written false indent lines program.body) : Program.ofLines lines = program := by
  rw [Program.ofLines, written.parse_eq]

/-- A group whose lines are indented less than its `begin`, an `if` and a group that hold nothing,
an `else` and an `end` that are stray, and keywords in either case. -/
def crookedScript : List Line :=
  [⟨1, 1, "While a"⟩, ⟨2, 6, "begin"⟩, ⟨3, 3, "if b"⟩, ⟨4, 3, "ELSE "⟩, ⟨5, 5, "print"⟩,
    ⟨6, 5, "begin"⟩, ⟨7, 4, "end"⟩, ⟨8, 9, "End"⟩, ⟨9, 1, "forever"⟩, ⟨10, 1, "else"⟩,
    ⟨11, 1, "end"⟩, ⟨12, 1, "begin again"⟩]

def crookedProgram : Program :=
  ⟨[.loop 1 (Expr.ofText " a".toList)
      [.group 2 true
        [.branch 3 (Expr.ofText " b".toList) []
          (some [.print 5 false (.literal (.text "")), .group 6 true []])]],
    .forever 9 [], .strayElse 10, .strayEnd 11, .command 12 "begin again"]⟩

theorem ofLines_written_crooked :
    Written false 1 crookedScript crookedProgram.body ∧
      Program.ofLines crookedScript = crookedProgram := by
  have empty (grouped : Bool) : Written grouped 0 [] [] := .nil
  have inner : Written true 5 [⟨5, 5, "print"⟩, ⟨6, 5, "begin"⟩, ⟨7, 4, "end"⟩]
      [.print 5 false (.literal (.text "")), .group 6 true []] := by
    refine .leaf ?_ (.print ?_) (.group ?_ ?_ (empty true) ?_ .nil)
    all_goals decide
  have branch : Written true 3
      [⟨3, 3, "if b"⟩, ⟨4, 3, "ELSE "⟩, ⟨5, 5, "print"⟩, ⟨6, 5, "begin"⟩, ⟨7, 4, "end"⟩]
      [.branch 3 (Expr.ofText " b".toList) []
        (some [.print 5 false (.literal (.text "")), .group 6 true []])] := by
    refine .branchElse ?_ ?_ (empty true) ?_ ?_ ?_ inner ?_ .nil
    all_goals decide
  have strays : Written false 1 [⟨10, 1, "else"⟩, ⟨11, 1, "end"⟩, ⟨12, 1, "begin again"⟩]
      [.strayElse 10, .strayEnd 11, .command 12 "begin again"] := by
    refine .strayElse ?_ ?_ (.strayEnd ?_ ?_ (.leaf ?_ (.command ?_ ?_) .nil))
    all_goals decide
  have whole : Written false 1 crookedScript crookedProgram.body := by
    refine .loop ?_ ?_ (.group rfl ?_ branch ?_ .nil) ?_ (.forever ?_ ?_ (empty false) ?_ strays)
    all_goals decide
  exact ⟨whole, ofLines_written crookedProgram 1 crookedScript whole⟩

end RobotScript
