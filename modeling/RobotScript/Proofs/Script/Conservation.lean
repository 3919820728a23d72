import RobotScript.Proofs.Script.Layout

/-!
# Conservation of lines

Every line of a script heads one statement of its program, or is the `else` or the `end` of one, or
stands below a stray `else`; and the statements come in the order of their lines.
-/

namespace RobotScript

open Block Piece

mutual

/-- The statements within a statement, in the order of the script. -/
def Stmt.within : Stmt → List Stmt
  | .branch _ _ body none | .loop _ _ body | .forever _ body | .group _ _ body => preorder body
  | .branch _ _ body (some otherwise) => preorder body ++ preorder otherwise
  | _ => []

/-- The statements of a tree in the order of the script, each before those within it. -/
def Stmt.preorder : List Stmt → List Stmt
  | [] => []
  | stmt :: next => stmt :: (stmt.within ++ preorder next)

end

/-! ### Statements and their heads -/

/-- The statements of a single line, a stray `else` or `end` apart. -/
def Stmt.isPlain : Stmt → Bool
  | .leave _ | .again _ | .set _ _ _ | .print _ _ _ | .command _ _ | .invalid _ _ => true
  | _ => false

theorem within_plain {stmt : Stmt} (plain : stmt.isPlain = true) : stmt.within = [] := by
  cases stmt <;> first | rfl | cases plain

theorem ofSet_plain (number : Nat) (cs : List Char) :
    (Stmt.ofSet number cs).isPlain = true ∧ (Stmt.ofSet number cs).line = number := by
  unfold Stmt.ofSet
  dsimp only
  repeat' split
  all_goals exact ⟨rfl, rfl⟩

theorem ofPrint_plain (number : Nat) (newline : Bool) (cs : List Char) :
    (Stmt.ofPrint number newline cs).isPlain = true ∧
      (Stmt.ofPrint number newline cs).line = number := by
  unfold Stmt.ofPrint
  repeat' split
  all_goals exact ⟨rfl, rfl⟩

theorem kind_single {l : Line} {stmt : Stmt} (kind : l.kind = .single stmt) :
    stmt.isPlain = true ∧ stmt.line = l.number := by
  unfold Line.kind at kind
  dsimp only at kind
  repeat' split at kind
  all_goals cases kind
  · exact ⟨rfl, rfl⟩
  · exact ⟨rfl, rfl⟩
  · exact ofSet_plain _ _
  · exact ofPrint_plain _ _ _
  · exact ofPrint_plain _ _ _
  · exact ⟨rfl, rfl⟩

theorem line_stmt (l : Line) (inside : List Stmt) (marked : Bool) (otherwise : List Stmt) :
    (l.stmt inside marked otherwise).line = l.number := by
  unfold Line.stmt
  split
  all_goals first | rfl | exact (kind_single ‹_›).2

theorem stmt_eq_strayElse {l : Line} {inside otherwise : List Stmt} {marked : Bool} {number : Nat}
    (stray : l.stmt inside marked otherwise = .strayElse number) : l.kind = .otherwise := by
  unfold Line.stmt at stray
  cases kind : l.kind with
  | otherwise => rfl
  | single stmt =>
    have plain := (kind_single kind).1
    simp only [kind] at stray
    rw [stray] at plain
    cases plain
  | _ =>
    rw [kind] at stray
    cases stray

theorem within_branch (number : Nat) (condition : Condition) (inside : List Stmt)
    (otherwise : Option (List Stmt)) :
    (Stmt.branch number condition inside otherwise).within =
      Stmt.preorder inside ++ Stmt.preorder (otherwise.getD []) := by
  cases otherwise with
  | none => exact (List.append_nil _).symm
  | some otherwise => rfl

theorem within_cut (l : Line) (rest : List Line) :
    (l.stmt (parse (cut l rest).inside) (cut l rest).mark.isSome
      (parse (cut l rest).otherwise)).within =
      Stmt.preorder (parse (cut l rest).inside) ++
        Stmt.preorder (parse (cut l rest).otherwise) := by
  have none : Stmt.preorder (parse []) = [] := by rw [parse, Stmt.preorder]
  unfold Line.stmt cut
  cases kind : l.kind with
  | branch condition =>
    dsimp only
    rw [within_branch]
    cases found : elseBranch? l.indent (after l.indent rest) with
    | none => simp [none, Stmt.preorder]
    | some branch =>
      obtain ⟨e, rest', here, -, -, -, -⟩ := elseBranch?_eq_some.1 found
      simp [here]
  | opening =>
    cases splitGroup? 0 rest <;> simp [Stmt.within, none]
  | single stmt => simp [within_plain (kind_single kind).1, none]
  | _ => simp [Stmt.within, none]

theorem preorder_layout (start : Nat) (lines : List Line) :
    (visits (layout start lines)).map (·.1.stmt) = Stmt.preorder (parse lines) := by
  fun_induction layout start lines with
  | case1 => simp [visits, parse, Stmt.preorder]
  | case2 start l rest c ihInside ihOther ihNext =>
    rw [parse_cons, Stmt.preorder, within_cut]
    simp only [visits, within, stmt, stmts_layout, Option.isSome_map, List.map_cons,
      List.map_append, ihInside, ihOther, ihNext, c]

theorem heads_sublist (start : Nat) (lines : List Line) :
    ((visits (layout start lines)).map (·.1.head)).Sublist (rows (layout start lines)) := by
  fun_induction layout start lines with
  | case1 => exact .slnil
  | case2 start l rest c ihInside ihOther ihNext =>
    simp only [visits, within, rows, Piece.lines, List.map_cons, List.map_append, List.cons_append,
      List.append_assoc]
    apply List.Sublist.cons_cons
    apply ihInside.append
    apply List.sublist_append_of_sublist_right
    apply ihOther.append
    exact List.sublist_append_of_sublist_right ihNext

theorem yields_sublist (start : Nat) (lines : List Line) :
    (yields (layout start lines)).Sublist (List.range' start lines.length) := by
  have places := (heads_sublist start lines).map Prod.snd
  rw [rows_layout, List.zipIdx_map_snd, List.map_map] at places
  exact places

theorem mem_yields_bounds {start i : Nat} {lines : List Line}
    (yielding : i ∈ yields (layout start lines)) : start ≤ i ∧ i < start + lines.length := by
  have member := (yields_sublist start lines).subset yielding
  rw [List.mem_range'_1] at member
  exact member

theorem yields_ascending (start : Nat) (lines : List Line) :
    (yields (layout start lines)).Pairwise (· < ·) := by
  have ascending : (List.range' start lines.length).Pairwise (· < ·) := List.pairwise_lt_range'
  exact ascending.sublist (yields_sublist start lines)

theorem rows_perm (start : Nat) (lines : List Line) :
    (rows (layout start lines)).Perm ((visits (layout start lines)).map (·.1.head) ++
      (visits (layout start lines)).flatMap (·.1.spare)) := by
  fun_induction layout start lines with
  | case1 => exact .nil
  | case2 start l rest c ihInside ihOther ihNext =>
    -- both sides are sums of the same counts, in another order
    apply List.perm_iff_count.2
    intro r
    have inside := ihInside.count_eq r
    have other := ihOther.count_eq r
    have next := ihNext.count_eq r
    simp only [spare, List.count_append] at inside other next
    simp only [visits, within, rows, Piece.lines, spare, List.map_cons, List.map_append,
      List.flatMap_cons, List.flatMap_append, List.count_cons, List.count_append, List.cons_append,
      List.append_assoc]
    omega

/-- A place of a block heads a statement or is spare, and not both. -/
theorem not_mem_yields {start i : Nat} {lines : List Line} (low : start ≤ i)
    (high : i < start + lines.length) :
    i ∉ yields (layout start lines) ↔
      ∃ v ∈ visits (layout start lines), ∃ l, (l, i) ∈ v.1.spare := by
  have perm := (rows_perm start lines).map Prod.snd
  rw [rows_layout, List.zipIdx_map_snd, List.map_append, List.map_map] at perm
  have member : i ∈ List.range' start lines.length := by
    rw [List.mem_range'_1]
    exact ⟨low, high⟩
  have distinct : (List.range' start lines.length).Nodup := List.nodup_range'
  rw [perm.mem_iff, List.mem_append] at member
  rw [perm.nodup_iff, List.nodup_append] at distinct
  have spares : i ∈ ((visits (layout start lines)).flatMap (·.1.spare)).map Prod.snd ↔
      ∃ v ∈ visits (layout start lines), ∃ l, (l, i) ∈ v.1.spare := by
    simp only [List.mem_map, List.mem_flatMap, Prod.exists, exists_eq_right]
    grind
  rw [← spares]
  constructor
  · intro missing
    exact member.resolve_left missing
  · intro spare heads
    exact distinct.2.2 i heads i spare rfl

namespace Piece

/-- `p` is an `if`, and line `i` is the `else` of its other branch. -/
def TakesElse (p : Piece) (i : Nat) : Prop :=
  ∃ m : Line, p.mark = some (m, i) ∧ m.isElse = true ∧
    ∃ number condition inside otherwise, p.stmt = .branch number condition inside (some otherwise)

/-- `p` is a closed group, and line `i` is its `end`. -/
def TakesEnd (p : Piece) (i : Nat) : Prop :=
  ∃ m : Line, p.mark = some (m, i) ∧ m.isEnd = true ∧
    ∃ number inside, p.stmt = .group number true inside

def IsStrayElse (p : Piece) : Prop := ∃ number, p.stmt = .strayElse number

/-- `p` is a stray `else`, and line `i` is one of the deeper lines right below it, as far as its
block goes. -/
def Drops (p : Piece) (next : List Piece) (i : Nat) : Prop :=
  p.IsStrayElse ∧
    ∃ m, (m, i) ∈ (p.following next).takeWhile (fun r => p.head.1.indent < r.1.indent)

end Piece

section Laid

variable {start i : Nat} {l m : Line} {rest : List Line} {p : Piece} {next : List Piece}

theorem takes_of_mark (laid : Laid start l rest p next) (marked : p.mark = some (m, i)) :
    l.isBranch = true ∧ p.TakesElse i ∨ l.kind = .opening ∧ p.TakesEnd i := by
  have found := (laid.mark_eq marked).1
  have stmt := laid.stmt_eq
  rcases cut_mark found with ⟨branch, word⟩ | ⟨kind, word⟩
  · obtain ⟨condition, kind⟩ := isBranch_iff.1 branch
    simp only [Line.stmt, kind, found, Option.isSome_some, if_true] at stmt
    exact .inl ⟨branch, m, marked, word, _, _, _, _, stmt⟩
  · simp only [Line.stmt, kind, found, Option.isSome_some] at stmt
    exact .inr ⟨kind, m, marked, word, _, _, stmt⟩

theorem isStrayElse_iff (laid : Laid start l rest p next) :
    p.IsStrayElse ↔ l.kind = .otherwise := by
  constructor
  · rintro ⟨number, stray⟩
    rw [laid.stmt_eq] at stray
    exact stmt_eq_strayElse stray
  · intro kind
    refine ⟨l.number, ?_⟩
    rw [laid.stmt_eq, Line.stmt, kind]

theorem drops_iff (laid : Laid start l rest p next) :
    p.Drops next i ↔ l.kind = .otherwise ∧ ∃ m, (m, i) ∈ p.dropped := by
  rw [Drops, isStrayElse_iff laid]
  apply and_congr_right
  intro kind
  rw [← laid.dropped_eq kind]

theorem spare_iff (laid : Laid start l rest p next) :
    (∃ m, (m, i) ∈ p.spare) ↔ p.TakesElse i ∨ p.TakesEnd i ∨ p.Drops next i := by
  constructor
  · rintro ⟨m, member⟩
    rcases List.mem_append.1 member with marked | dropped
    · have marked : p.mark = some (m, i) := by simpa using marked
      rcases takes_of_mark laid marked with ⟨-, takes⟩ | ⟨-, takes⟩
      · exact .inl takes
      · exact .inr (.inl takes)
    · have drops : (cut l rest).dropped ≠ [] := by
        intro none
        simp [laid.dropped, none] at dropped
      exact .inr (.inr ((drops_iff laid).2 ⟨cut_dropped drops, m, dropped⟩))
  · rintro (⟨m, marked, -⟩ | ⟨m, marked, -⟩ | drops)
    · exact ⟨m, by simp [spare, marked]⟩
    · exact ⟨m, by simp [spare, marked]⟩
    · obtain ⟨-, m, member⟩ := (drops_iff laid).1 drops
      exact ⟨m, by simp [spare, member]⟩

end Laid

theorem line_piece (p : Piece) : p.stmt.line = p.head.1.number := by
  rw [Piece.stmt_eq, line_stmt]

theorem lines_preorder (lines : List Line) :
    ((Stmt.preorder (parse lines)).map Stmt.line).Sublist (lines.map Line.number) := by
  have numbers := ((heads_sublist 0 lines).map Prod.fst).map Line.number
  rw [rows_layout, List.zipIdx_map_fst, List.map_map, List.map_map] at numbers
  rw [← preorder_layout 0, List.map_map]
  have same : Stmt.line ∘ (fun v : Piece × List Piece => v.1.stmt) =
      Line.number ∘ Prod.fst ∘ fun v => v.1.head := by
    funext v
    exact line_piece v.1
  rw [same]
  exact numbers

theorem not_mem_yields_iff {start i : Nat} {lines : List Line} (low : start ≤ i)
    (high : i < start + lines.length) :
    i ∉ yields (layout start lines) ↔ ∃ v ∈ visits (layout start lines),
      v.1.TakesElse i ∨ v.1.TakesEnd i ∨ v.1.Drops v.2 i := by
  rw [not_mem_yields low high]
  apply exists_congr
  intro v
  apply and_congr_right
  intro visited
  obtain ⟨_, _, _, -, laid⟩ := visits_layout (P := fun _ _ => True) (by simp) trivial visited
  exact spare_iff laid

/-- No line is lost, repeated or moved. The layout of a script holds the statements of its program
and all of its lines; the lines that head the statements come in the order of the script, and the
others are an `else`, an `end` or below a stray `else`. -/
theorem layout_accounts_for_lines (lines : List Line) :
    stmts (layout 0 lines) = (Program.ofLines lines).body ∧
    rows (layout 0 lines) = lines.zipIdx ∧
    (visits (layout 0 lines)).map (·.1.stmt) = Stmt.preorder (Program.ofLines lines).body ∧
    (yields (layout 0 lines)).Pairwise (· < ·) ∧
    ((Stmt.preorder (Program.ofLines lines).body).map Stmt.line).Sublist (lines.map Line.number) ∧
    ∀ i < lines.length, i ∉ yields (layout 0 lines) ↔ ∃ v ∈ visits (layout 0 lines),
      v.1.TakesElse i ∨ v.1.TakesEnd i ∨ v.1.Drops v.2 i := by
  refine ⟨stmts_layout 0 lines, rows_layout 0 lines, preorder_layout 0 lines,
    yields_ascending 0 lines, lines_preorder lines, ?_⟩
  intro i high
  exact not_mem_yields_iff (Nat.zero_le i) (by omega)

end RobotScript
