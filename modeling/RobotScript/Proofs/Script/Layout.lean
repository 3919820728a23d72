import RobotScript.Script.Program

/-!
# The layout of a program

The parser drops what the statements do not need: where a line stands, the `else` and the `end` of a
statement, the lines below a stray `else`. The layout of a block keeps all of it, so that every line
of the script is in it once.
-/

namespace RobotScript

/-- The statement that `l` heads. `marked` is whether its `else` or `end` was found. -/
def Line.stmt (l : Line) (inside : List Stmt) (marked : Bool) (otherwise : List Stmt) : Stmt :=
  match l.kind with
  | .branch condition =>
    .branch l.number condition inside (if marked then some otherwise else none)
  | .loop condition => .loop l.number condition inside
  | .forever => .forever l.number inside
  | .otherwise => .strayElse l.number
  | .opening => .group l.number marked inside
  | .closing => .strayEnd l.number
  | .single stmt => stmt

def Line.isBranch (l : Line) : Bool :=
  match l.kind with
  | .branch _ => true
  | _ => false

theorem isBranch_iff {l : Line} : l.isBranch = true ↔ ∃ condition, l.kind = .branch condition := by
  unfold Line.isBranch
  cases l.kind <;> simp

/-- Whether the deeper lines below `l` are its block. -/
def Line.isOwner (l : Line) : Bool :=
  match l.kind with
  | .branch _ | .loop _ | .forever => true
  | _ => false

namespace Block

/-! ### Cutting a block -/

/-- What becomes of the lines after a head: those inside its statement, the `else` or `end` after
them, those of the other branch, those that are dropped, and those of the next statements. -/
structure Cut where
  inside : List Line
  mark : Option Line
  otherwise : List Line
  dropped : List Line
  next : List Line

def cut (l : Line) (rest : List Line) : Cut :=
  match l.kind with
  | .branch _ =>
    match elseBranch? l.indent (after l.indent rest) with
    | some (otherwise, next) =>
      ⟨body l.indent rest, (after l.indent rest).head?, otherwise, [], next⟩
    | none => ⟨body l.indent rest, none, [], [], after l.indent rest⟩
  | .loop _ | .forever => ⟨body l.indent rest, none, [], [], after l.indent rest⟩
  | .otherwise => ⟨[], none, [], body l.indent rest, after l.indent rest⟩
  | .opening =>
    match splitGroup? 0 rest with
    | some (inside, next) => ⟨inside, rest[inside.length]?, [], [], next⟩
    | none => ⟨rest, none, [], [], []⟩
  | .closing | .single _ => ⟨[], none, [], [], rest⟩

theorem body_append_after (indent : Nat) (lines : List Line) :
    body indent lines ++ after indent lines = lines :=
  List.takeWhile_append_dropWhile

theorem elseBranch?_eq_some {indent : Nat} {lines b a : List Line} :
    elseBranch? indent lines = some (b, a) ↔ ∃ l rest, lines = l :: rest ∧ l.indent = indent ∧
      l.isElse = true ∧ b = body indent rest ∧ a = after indent rest := by
  cases lines with
  | nil => simp [elseBranch?]
  | cons l rest =>
    simp only [elseBranch?, Option.ite_none_right_eq_some, Bool.and_eq_true, beq_iff_eq,
      Option.some.injEq, Prod.mk.injEq, List.cons.injEq]
    constructor
    · rintro ⟨⟨level, word⟩, rfl, rfl⟩
      exact ⟨l, rest, ⟨rfl, rfl⟩, level, word, rfl, rfl⟩
    · rintro ⟨_, _, ⟨rfl, rfl⟩, level, word, rfl, rfl⟩
      exact ⟨⟨level, word⟩, rfl, rfl⟩

theorem splitGroup?_eq_some {depth : Nat} {lines b a : List Line}
    (found : splitGroup? depth lines = some (b, a)) :
    ∃ l, l.isEnd = true ∧ lines = b ++ l :: a := by
  fun_induction splitGroup? depth lines generalizing b a with
  | case1 => cases found
  | case2 depth l lines _ ih | case4 l lines _ _ depth ih | case5 depth l lines _ _ ih =>
    obtain ⟨⟨b', a'⟩, found', parts⟩ := Option.map_eq_some_iff.1 found
    cases parts
    obtain ⟨last, word, rfl⟩ := ih found'
    exact ⟨last, word, rfl⟩
  | case3 l lines _ word =>
    cases found
    exact ⟨l, word, rfl⟩

/-- The ways to cut the lines after `l`. -/
inductive Cuts (l : Line) (rest : List Line) : Cut → Prop
  | branch {e rest'} (branch : l.isBranch = true) (here : after l.indent rest = e :: rest')
    (level : e.indent = l.indent) (word : e.isElse = true) :
    Cuts l rest ⟨body l.indent rest, some e, body l.indent rest', [], after l.indent rest'⟩
  | owner (owner : l.isOwner = true)
    (single : l.isBranch = true → elseBranch? l.indent (after l.indent rest) = none) :
    Cuts l rest ⟨body l.indent rest, none, [], [], after l.indent rest⟩
  | stray (kind : l.kind = .otherwise) :
    Cuts l rest ⟨[], none, [], body l.indent rest, after l.indent rest⟩
  | closed {inside e next} (kind : l.kind = .opening) (here : rest = inside ++ e :: next)
    (word : e.isEnd = true) : Cuts l rest ⟨inside, some e, [], [], next⟩
  | unclosed (kind : l.kind = .opening) : Cuts l rest ⟨rest, none, [], [], []⟩
  | alone (alone : l.isOwner = false) (kind : l.kind ≠ .otherwise) :
    Cuts l rest ⟨[], none, [], [], rest⟩

theorem cuts (l : Line) (rest : List Line) : Cuts l rest (cut l rest) := by
  unfold cut
  cases kind : l.kind with
  | branch condition =>
    have branch : l.isBranch = true := by simp [Line.isBranch, kind]
    cases found : elseBranch? l.indent (after l.indent rest) with
    | none => exact .owner (by simp [Line.isOwner, kind]) (fun _ => found)
    | some parts =>
      obtain ⟨e, rest', here, level, word, other, next⟩ := elseBranch?_eq_some.1 found
      obtain ⟨otherwise, later⟩ := parts
      subst other next
      simp only [here, List.head?_cons]
      exact .branch branch here level word
  | loop condition =>
    exact .owner (by simp [Line.isOwner, kind]) (by simp [Line.isBranch, kind])
  | forever => exact .owner (by simp [Line.isOwner, kind]) (by simp [Line.isBranch, kind])
  | otherwise => exact .stray kind
  | opening =>
    cases found : splitGroup? 0 rest with
    | none => exact .unclosed kind
    | some parts =>
      obtain ⟨inside, next⟩ := parts
      obtain ⟨e, word, here⟩ := splitGroup?_eq_some found
      have last : rest[inside.length]? = some e := by simp [here]
      simp only [last]
      exact .closed kind here word
  | closing => exact .alone (by simp [Line.isOwner, kind]) (by simp [kind])
  | single stmt => exact .alone (by simp [Line.isOwner, kind]) (by simp [kind])

theorem cut_parts (l : Line) (rest : List Line) :
    rest = (cut l rest).inside ++ ((cut l rest).mark.toList ++
      ((cut l rest).otherwise ++ ((cut l rest).dropped ++ (cut l rest).next))) := by
  have shape := cuts l rest
  have whole := body_append_after l.indent rest
  generalize cut l rest = c at shape ⊢
  cases shape with
  | @branch e rest' _ here =>
    have other := body_append_after l.indent rest'
    simp [other, ← here, whole]
  | closed _ here => simpa using here
  | _ => simp [whole]

theorem cut_mark {l m : Line} {rest : List Line} (marked : (cut l rest).mark = some m) :
    (l.isBranch = true ∧ m.isElse = true) ∨ (l.kind = .opening ∧ m.isEnd = true) := by
  have shape := cuts l rest
  generalize cut l rest = c at shape marked
  cases shape with
  | branch branch _ _ word =>
    cases marked
    exact .inl ⟨branch, word⟩
  | closed kind _ word =>
    cases marked
    exact .inr ⟨kind, word⟩
  | _ => cases marked

theorem cut_stray {l : Line} (stray : l.kind = .otherwise) (rest : List Line) :
    cut l rest = ⟨[], none, [], body l.indent rest, after l.indent rest⟩ := by
  simp [cut, stray]

theorem cut_dropped {l : Line} {rest : List Line} (drops : (cut l rest).dropped ≠ []) :
    l.kind = .otherwise := by
  have shape := cuts l rest
  generalize cut l rest = c at shape drops
  cases shape with
  | stray kind => exact kind
  | _ => exact absurd rfl drops

theorem parse_cons (l : Line) (rest : List Line) :
    parse (l :: rest) =
      l.stmt (parse (cut l rest).inside) (cut l rest).mark.isSome (parse (cut l rest).otherwise) ::
        parse (cut l rest).next := by
  rw [parse]
  unfold Line.stmt cut
  cases l.kind with
  | branch condition =>
    dsimp only
    split
    · rename_i otherwise next found
      obtain ⟨e, rest', here, -, -, -, -⟩ := elseBranch?_eq_some.1 found
      simp only [found]
      simp [here]
    · rename_i missing
      simp only [missing]
      simp
  | opening =>
    dsimp only
    split
    · rename_i inside next found
      obtain ⟨e, -, here⟩ := splitGroup?_eq_some found
      simp only [found]
      simp [here]
    · rename_i missing
      simp only [missing]
      simp [parse]
  | _ => rfl

/-! Where the parts of a cut start, when the head is at `start`. -/

def Cut.atMark (c : Cut) (start : Nat) : Nat := start + 1 + c.inside.length

def Cut.atOther (c : Cut) (start : Nat) : Nat := c.atMark start + c.mark.toList.length

def Cut.atDropped (c : Cut) (start : Nat) : Nat := c.atOther start + c.otherwise.length

def Cut.atNext (c : Cut) (start : Nat) : Nat := c.atDropped start + c.dropped.length

theorem length_cut (l : Line) (rest : List Line) :
    (cut l rest).inside.length ≤ rest.length ∧ (cut l rest).otherwise.length ≤ rest.length ∧
      (cut l rest).next.length ≤ rest.length := by
  have parts := congrArg List.length (cut_parts l rest)
  simp only [List.length_append] at parts
  omega

end Block

/-! ### Pieces -/

/-- A line and its place in the script. -/
abbrev Row := Line × Nat

/-- A statement with all of its lines. -/
structure Piece where
  head : Row
  inside : List Piece
  mark : Option Row
  otherwise : List Piece
  dropped : List Row

namespace Piece

mutual

def stmt : Piece → Stmt
  | ⟨head, inside, mark, otherwise, _⟩ => head.1.stmt (stmts inside) mark.isSome (stmts otherwise)

def stmts : List Piece → List Stmt
  | [] => []
  | p :: next => p.stmt :: stmts next

end

theorem stmt_eq (p : Piece) :
    p.stmt = p.head.1.stmt (stmts p.inside) p.mark.isSome (stmts p.otherwise) := by
  cases p
  rfl

mutual

/-- The lines of a statement, in the order of the script. -/
def lines : Piece → List Row
  | ⟨head, inside, mark, otherwise, dropped⟩ =>
    head :: (rows inside ++ (mark.toList ++ (rows otherwise ++ dropped)))

def rows : List Piece → List Row
  | [] => []
  | p :: next => p.lines ++ rows next

end

mutual

def within : Piece → List (Piece × List Piece)
  | ⟨_, inside, _, otherwise, _⟩ => visits inside ++ visits otherwise

/-- The pieces of a tree in the order of the script, each with the pieces after it in its block. -/
def visits : List Piece → List (Piece × List Piece)
  | [] => []
  | p :: next => (p, next) :: (p.within ++ visits next)

end

/-- The lines after the head of `p` in a block that goes on with `next`. -/
def following (p : Piece) (next : List Piece) : List Row := p.lines.tail ++ rows next

/-- The lines of a piece that head no statement. -/
def spare (p : Piece) : List Row := p.mark.toList ++ p.dropped

/-- The places of a block whose lines head a statement. -/
def yields (ps : List Piece) : List Nat := (visits ps).map (·.1.head.2)

end Piece

namespace Block

/-- The pieces of a block whose first line is at place `start`. -/
def layout (start : Nat) (lines : List Line) : List Piece :=
  match lines with
  | [] => []
  | l :: rest =>
    let c := cut l rest
    { head := (l, start)
      inside := layout (start + 1) c.inside
      mark := c.mark.map (·, c.atMark start)
      otherwise := layout (c.atOther start) c.otherwise
      dropped := c.dropped.zipIdx (c.atDropped start) } :: layout (c.atNext start) c.next
termination_by lines.length
decreasing_by
  all_goals
    have := length_cut l rest
    simp only [List.length_cons]
    omega

/-- What a block makes of its first line: the piece `p`, and the pieces `next` of the others. -/
structure Laid (start : Nat) (l : Line) (rest : List Line) (p : Piece) (next : List Piece) :
    Prop where
  head : p.head = (l, start)
  inside : p.inside = layout (start + 1) (cut l rest).inside
  mark : p.mark = (cut l rest).mark.map (·, (cut l rest).atMark start)
  otherwise : p.otherwise = layout ((cut l rest).atOther start) (cut l rest).otherwise
  dropped : p.dropped = (cut l rest).dropped.zipIdx ((cut l rest).atDropped start)
  next : next = layout ((cut l rest).atNext start) (cut l rest).next

end Block

open Block Piece

theorem stmts_layout (start : Nat) (lines : List Line) :
    stmts (layout start lines) = parse lines := by
  fun_induction layout start lines with
  | case1 => simp [stmts, parse]
  | case2 start l rest c ihInside ihOther ihNext =>
    simp only [stmts, stmt, parse_cons, ihInside, ihOther, ihNext, Option.isSome_map, c]

theorem zipIdx_toList (mark : Option Line) (start : Nat) :
    mark.toList.zipIdx start = (mark.map (·, start)).toList := by
  cases mark <;> rfl

theorem rows_layout (start : Nat) (lines : List Line) :
    rows (layout start lines) = lines.zipIdx start := by
  fun_induction layout start lines with
  | case1 => rfl
  | case2 start l rest c ihInside ihOther ihNext =>
    rw [cut_parts l rest]
    simp only [rows, Piece.lines, ihInside, ihOther, ihNext, List.zipIdx_cons, List.zipIdx_append,
      zipIdx_toList, List.cons_append, List.append_assoc]
    rfl

/-! ### The blocks of a layout -/

/-- A property of blocks that is handed down to the parts of a cut holds from every piece on to the
end of its block. -/
theorem visits_layout {P : Nat → List Line → Prop}
    (down : ∀ start l rest, P start (l :: rest) →
      P (start + 1) (cut l rest).inside ∧
      P ((cut l rest).atOther start) (cut l rest).otherwise ∧
      P ((cut l rest).atNext start) (cut l rest).next)
    {start : Nat} {lines : List Line} (holds : P start lines) {v : Piece × List Piece}
    (visited : v ∈ visits (layout start lines)) :
    ∃ start l rest, P start (l :: rest) ∧ Laid start l rest v.1 v.2 := by
  fun_induction layout start lines with
  | case1 => simp [visits] at visited
  | case2 start l rest c ihInside ihOther ihNext =>
    obtain ⟨inside, other, next⟩ := down start l rest holds
    simp only [visits, within, List.mem_cons, List.mem_append] at visited
    rcases visited with rfl | (visited | visited) | visited
    · exact ⟨start, l, rest, holds, rfl, rfl, rfl, rfl, rfl, rfl⟩
    · exact ihInside inside visited
    · exact ihOther other visited
    · exact ihNext next visited

theorem takeWhile_zipIdx (deeper : Line → Bool) (lines : List Line) (start : Nat) :
    (lines.zipIdx start).takeWhile (fun r => deeper r.1) =
      (lines.takeWhile deeper).zipIdx start := by
  induction lines generalizing start with
  | nil => rfl
  | cons l lines ih =>
    rw [List.zipIdx_cons, List.takeWhile_cons, List.takeWhile_cons, ih]
    cases deeper l <;> rfl

section Laid

variable {start i : Nat} {l m : Line} {rest : List Line} {p : Piece} {next : List Piece}

theorem Block.Laid.stmt_eq (laid : Laid start l rest p next) :
    p.stmt = l.stmt (parse (cut l rest).inside) (cut l rest).mark.isSome
      (parse (cut l rest).otherwise) := by
  have head : p.head.1 = l := congrArg Prod.fst laid.head
  rw [Piece.stmt_eq, head, laid.inside, laid.otherwise, laid.mark, stmts_layout, stmts_layout,
    Option.isSome_map]

theorem Block.Laid.mark_eq (laid : Laid start l rest p next) (marked : p.mark = some (m, i)) :
    (cut l rest).mark = some m ∧ i = (cut l rest).atMark start := by
  rw [laid.mark, Option.map_eq_some_iff] at marked
  obtain ⟨m', marked, same⟩ := marked
  cases same
  exact ⟨marked, rfl⟩

theorem Block.Laid.following_eq (laid : Laid start l rest p next) :
    p.following next = rest.zipIdx (start + 1) := by
  have whole := rows_layout start (l :: rest)
  have piece : layout start (l :: rest) = p :: next := by
    rw [layout, laid.next, ← laid.head, ← laid.inside, ← laid.mark, ← laid.otherwise,
      ← laid.dropped]
    cases p
    rfl
  rw [piece, List.zipIdx_cons] at whole
  have tails := congrArg List.tail whole
  cases p
  exact tails

/-- A stray `else` drops the deeper lines below it, as far as its block goes. -/
theorem Block.Laid.dropped_eq (laid : Laid start l rest p next) (stray : l.kind = .otherwise) :
    p.dropped = (p.following next).takeWhile (fun r => p.head.1.indent < r.1.indent) := by
  rw [laid.following_eq, laid.head, takeWhile_zipIdx (fun m => l.indent < m.indent), laid.dropped,
    cut_stray stray]
  rfl

end Laid

end RobotScript
