import RobotScript.Proofs.Script.Conservation
import RobotScript.Proofs.Script.Slices

/-!
# Indentation

The parser looks at one block at a time, yet without groups what it makes of a line can be told from
the indents of the whole script.
-/

namespace RobotScript

open Block Piece

/-! ### Places of the script -/

/-- Every line after `i`, up to `j`, is deeper than `i`. -/
def Deeper (lines : List Line) (i j : Fin lines.length) : Prop :=
  ∀ k, i < k → k ≤ j → lines[i].indent < lines[k].indent

namespace Piece

/-- Line `j` heads a statement inside the block of the one that line `i` heads. -/
def Owns (tree : List Piece) (i j : Nat) : Prop :=
  ∃ v ∈ visits tree, v.1.head.2 = i ∧ j ∈ yields v.1.inside

/-- Line `j` is the `else` of the `if` that line `i` heads. -/
def ElseOf (tree : List Piece) (i j : Nat) : Prop :=
  ∃ v ∈ visits tree, v.1.head.2 = i ∧ v.1.TakesElse j

/-- Line `i` heads a stray `else`. -/
def StrayAt (tree : List Piece) (i : Nat) : Prop :=
  ∃ v ∈ visits tree, v.1.head.2 = i ∧ v.1.IsStrayElse

end Piece

section Places

variable {lines rest : List Line} {l : Line} {v w : Piece × List Piece}

theorem line_at (i : Fin lines.length) (slice : Slice lines i (l :: rest)) : lines[i] = l := by
  have here := slice_head slice
  simpa using here

theorem deeper_iff {i j : Fin lines.length} (later : i < j) (slice : Slice lines i (l :: rest)) :
    Deeper lines i j ↔ (j : Nat) < i + 1 + (body l.indent rest).length := by
  have here := line_at i slice
  have offset : (j : Nat) < i + 1 + (body l.indent rest).length ↔
      (j : Nat) - i - 1 < (body l.indent rest).length := by omega
  rw [offset, ← body_slice slice, lt_length_body]
  constructor
  · intro deeper k le
    have bound : i + 1 + k < lines.length := by omega
    refine ⟨lines[i + 1 + k], by simp [bound], ?_⟩
    rw [← here]
    exact deeper ⟨i + 1 + k, bound⟩ (Fin.mk_lt_mk.2 (by omega)) (Fin.mk_le_mk.2 (by omega))
  · intro all k low high
    obtain ⟨m, found, deeper⟩ := all (k - i - 1) (by omega)
    rw [List.getElem?_drop, show (i : Nat) + 1 + (k - i - 1) = k by omega] at found
    have same : lines[k] = m := by simpa using found
    rwa [here, same]

theorem visits_inside {start : Nat} {lines : List Line} (visited : v ∈ visits (layout start lines))
    (within : w ∈ visits v.1.inside) : w ∈ visits (layout start lines) := by
  fun_induction layout start lines with
  | case1 => simp [visits] at visited
  | case2 start l rest c ihInside ihOther ihNext =>
    simp only [visits, Piece.within, List.mem_cons, List.mem_append] at visited ⊢
    rcases visited with rfl | (visited | visited) | visited
    · exact .inr (.inl (.inl within))
    · exact .inr (.inl (.inl (ihInside visited)))
    · exact .inr (.inl (.inr (ihOther visited)))
    · exact .inr (.inr (ihNext visited))

/-- Every piece of a script without groups starts a slice. -/
theorem visit_slice (plain : ∀ l ∈ lines, l.isBegin = false)
    (visited : v ∈ visits (layout 0 lines)) :
    ∃ l rest, l.isBegin = false ∧ Slice lines v.1.head.2 (l :: rest) ∧
      Laid v.1.head.2 l rest v.1 v.2 := by
  have down : ∀ start l rest, Slice lines start (l :: rest) →
      Slice lines (start + 1) (cut l rest).inside ∧
      Slice lines ((cut l rest).atOther start) (cut l rest).otherwise ∧
      Slice lines ((cut l rest).atNext start) (cut l rest).next := by
    intro start l rest slice
    exact slice_cut (plain l (List.mem_of_getElem? (slice_head slice))) slice
  obtain ⟨start, l, rest, slice, laid⟩ := visits_layout down (slice_all lines) visited
  have place : v.1.head.2 = start := congrArg Prod.snd laid.head
  rw [place]
  exact ⟨l, rest, plain l (List.mem_of_getElem? (slice_head slice)), slice, laid⟩

theorem visit_at (plain : ∀ l ∈ lines, l.isBegin = false) {i : Fin lines.length}
    (yielding : ↑i ∈ yields (layout 0 lines)) :
    ∃ v ∈ visits (layout 0 lines), v.1.head.2 = i ∧ lines[i].isBegin = false ∧
      ∃ rest, Slice lines i (lines[i] :: rest) ∧ Laid i lines[i] rest v.1 v.2 := by
  obtain ⟨v, visited, place⟩ := List.mem_map.1 yielding
  obtain ⟨l, rest, noBegin, slice, laid⟩ := visit_slice plain visited
  rw [place] at slice laid
  have here := line_at i slice
  rw [here]
  exact ⟨v, visited, place, noBegin, rest, slice, laid⟩

theorem owns_iff (plain : ∀ l ∈ lines, l.isBegin = false) (i j : Fin lines.length) :
    Owns (layout 0 lines) i j ↔
      lines[i].isOwner = true ∧ ↑i ∈ yields (layout 0 lines) ∧ ↑j ∈ yields (layout 0 lines) ∧
        i < j ∧ Deeper lines i j := by
  constructor
  · rintro ⟨v, visited, place, member⟩
    obtain ⟨l, rest, noBegin, slice, laid⟩ := visit_slice plain visited
    have yielding : ↑i ∈ yields (layout 0 lines) := List.mem_map.2 ⟨v, visited, place⟩
    have inner : ↑j ∈ yields (layout 0 lines) := by
      obtain ⟨w, within, place'⟩ := List.mem_map.1 member
      exact List.mem_map.2 ⟨w, visits_inside visited within, place'⟩
    rw [place] at slice laid
    have here := line_at i slice
    rw [laid.inside, cut_inside noBegin] at member
    obtain ⟨low, high⟩ := mem_yields_bounds member
    have later : i < j := Fin.lt_def.2 (by omega)
    split at high
    · rename_i owner
      rw [← here] at owner
      exact ⟨owner, yielding, inner, later, (deeper_iff later slice).2 high⟩
    · simp only [List.length_nil] at high
      omega
  · rintro ⟨owner, yielding, inner, later, deeper⟩
    obtain ⟨v, visited, place, noBegin, rest, slice, laid⟩ := visit_at plain yielding
    have high := (deeper_iff later slice).1 deeper
    have inside := cut_inside noBegin rest
    rw [if_pos owner] at inside
    refine ⟨v, visited, place, ?_⟩
    -- a line of the block that headed nothing there would be spare in the script too
    by_contra missing
    rw [laid.inside, inside] at missing
    obtain ⟨w, within, spared⟩ := (not_mem_yields (by omega) high).1 missing
    rw [← inside, ← laid.inside] at within
    have spared' := (not_mem_yields (Nat.zero_le _) (by omega)).2
      ⟨w, visits_inside visited within, spared⟩
    exact spared' inner

/-- Right after the deeper lines below a line stands, if the indent is still the same, a line of the
same block. -/
theorem after_of_between {i j : Fin lines.length} (later : i < j)
    (slice : Slice lines i (lines[i] :: rest)) (level : lines[j].indent = lines[i].indent)
    (between : ∀ k, i < k → k < j → lines[i].indent < lines[k].indent) :
    (j : Nat) = i + 1 + (body lines[i].indent rest).length ∧
      ∃ rest', after lines[i].indent rest = lines[j] :: rest' := by
  have place : (j : Nat) = i + 1 + (body lines[i].indent rest).length := by
    rcases Nat.lt_trichotomy j (i + 1 + (body lines[i].indent rest).length) with low | same | high
    · have deeper := (deeper_iff later slice).2 low j later (Fin.le_refl j)
      omega
    · exact same
    · let k : Fin lines.length := ⟨i + 1 + (body lines[i].indent rest).length, by omega⟩
      have later' : i < k := Fin.lt_def.2 (by simp only [k]; omega)
      have deeper : Deeper lines i k := by
        intro k' low le
        exact between k' low (Fin.lt_def.2 (by simp only [k, Fin.le_def] at le; omega))
      have short := (deeper_iff later' slice).1 deeper
      simp only [k] at short
      omega
  refine ⟨place, ?_⟩
  have found : lines[i + 1 + (body lines[i].indent rest).length]? = some lines[j] := by
    rw [← place]
    simp
  cases here : after lines[i].indent rest with
  | nil =>
    have whole := body_append_after lines[i].indent rest
    rw [here, List.append_nil] at whole
    have past : lines[i + (lines[i] :: rest).length]? = some lines[j] := by
      rw [← found, whole, List.length_cons]
      congr 1
      omega
    have shallow := slice_end slice past List.mem_cons_self
    omega
  | cons e rest' =>
    have head := slice_head (slice_else slice here)
    rw [found] at head
    cases head
    exact ⟨rest', rfl⟩

theorem elseOf_iff (plain : ∀ l ∈ lines, l.isBegin = false) (i j : Fin lines.length) :
    ElseOf (layout 0 lines) i j ↔
      lines[i].isBranch = true ∧ lines[j].isElse = true ∧ ↑i ∈ yields (layout 0 lines) ∧ i < j ∧
        lines[j].indent = lines[i].indent ∧
        ∀ k, i < k → k < j → lines[i].indent < lines[k].indent := by
  constructor
  · rintro ⟨v, visited, place, m, marked, -⟩
    obtain ⟨l, rest, noBegin, slice, laid⟩ := visit_slice plain visited
    have yielding : ↑i ∈ yields (layout 0 lines) := List.mem_map.2 ⟨v, visited, place⟩
    rw [place] at slice laid
    obtain ⟨found, target⟩ := laid.mark_eq marked
    obtain ⟨rest', next, branch, word, level, inside, -⟩ := cut_else noBegin found
    rw [Cut.atMark, inside] at target
    have here := line_at i slice
    have there : lines[j] = m := by
      apply line_at j
      rw [target]
      exact slice_else slice next
    rw [here, there]
    refine ⟨branch, word, yielding, Fin.lt_def.2 (by omega), level, ?_⟩
    intro k low high
    rw [← here]
    exact (deeper_iff low slice).2 (by omega) k low (Fin.le_refl k)
  · rintro ⟨branch, word, yielding, later, level, between⟩
    obtain ⟨v, visited, place, noBegin, rest, slice, laid⟩ := visit_at plain yielding
    obtain ⟨target, rest', next⟩ := after_of_between later slice level between
    have found := cut_mark_of_else branch next level word
    obtain ⟨-, -, -, -, -, inside, -⟩ := cut_else noBegin found
    have marked : v.1.mark = some (lines[j], ↑j) := by
      rw [laid.mark, found, Cut.atMark, inside, ← target]
      rfl
    rcases takes_of_mark laid marked with ⟨-, takes⟩ | ⟨kind, -⟩
    · exact ⟨v, visited, place, takes⟩
    · exact absurd kind (kind_ne_opening noBegin)

theorem rows_otherwise_iff (plain : ∀ l ∈ lines, l.isBegin = false)
    (visited : v ∈ visits (layout 0 lines)) {j : Fin lines.length} (takes : v.1.TakesElse j)
    (k : Fin lines.length) :
    ↑k ∈ (rows v.1.otherwise).map Prod.snd ↔ j < k ∧ Deeper lines j k := by
  obtain ⟨m, marked, -⟩ := takes
  obtain ⟨l, rest, noBegin, slice, laid⟩ := visit_slice plain visited
  obtain ⟨found, target⟩ := laid.mark_eq marked
  obtain ⟨rest', next, -, -, level, inside, other⟩ := cut_else noBegin found
  have branch := slice_else slice next
  have place : (cut l rest).atOther v.1.head.2 = j + 1 := by
    rw [Cut.atOther, found, target]
    rfl
  rw [Cut.atMark, inside] at target
  rw [← target] at branch
  rw [laid.otherwise, rows_layout, List.zipIdx_map_snd, place, other, List.mem_range'_1]
  constructor
  · rintro ⟨low, high⟩
    have later : j < k := Fin.lt_def.2 (by omega)
    rw [← level] at high
    exact ⟨later, (deeper_iff later branch).2 high⟩
  · rintro ⟨later, deeper⟩
    have high := (deeper_iff later branch).1 deeper
    rw [level] at high
    exact ⟨later, high⟩

theorem strayAt_of_else (plain : ∀ l ∈ lines, l.isBegin = false) {j : Fin lines.length}
    (word : lines[j].isElse = true) (yielding : ↑j ∈ yields (layout 0 lines)) :
    StrayAt (layout 0 lines) j := by
  obtain ⟨v, visited, place, -, rest, -, laid⟩ := visit_at plain yielding
  exact ⟨v, visited, place, (isStrayElse_iff laid).2 (isElse_iff_kind.1 word)⟩

theorem mem_dropped_iff {start i : Nat} {p : Piece} {next : List Piece}
    (laid : Laid start l rest p next) (stray : l.kind = .otherwise) :
    (∃ m, (m, i) ∈ p.dropped) ↔ start < i ∧ i < start + 1 + (body l.indent rest).length := by
  have places : (∃ m, (m, i) ∈ p.dropped) ↔ i ∈ p.dropped.map Prod.snd := by simp
  rw [places, laid.dropped, cut_stray stray, List.zipIdx_map_snd, List.mem_range'_1]
  rfl

theorem not_mem_yields_iff_else_or_stray (plain : ∀ l ∈ lines, l.isBegin = false)
    (i : Fin lines.length) :
    ↑i ∉ yields (layout 0 lines) ↔ (∃ p : Fin lines.length, ElseOf (layout 0 lines) p i) ∨
      ∃ j : Fin lines.length, StrayAt (layout 0 lines) j ∧ j < i ∧ Deeper lines j i := by
  rw [not_mem_yields_iff (Nat.zero_le _) (by omega)]
  constructor
  · rintro ⟨v, visited, spare⟩
    obtain ⟨l, rest, noBegin, slice, laid⟩ := visit_slice plain visited
    have bound := (mem_yields_bounds (List.mem_map.2 ⟨v, visited, rfl⟩)).2
    let j : Fin lines.length := ⟨v.1.head.2, by omega⟩
    rcases spare with takes | ⟨m, marked, -⟩ | drops
    · exact .inl ⟨j, v, visited, rfl, takes⟩
    · rcases takes_of_mark laid marked with ⟨-, takes⟩ | ⟨kind, -⟩
      · exact .inl ⟨j, v, visited, rfl, takes⟩
      · exact absurd kind (kind_ne_opening noBegin)
    · obtain ⟨kind, dropped⟩ := (drops_iff laid).1 drops
      obtain ⟨low, high⟩ := (mem_dropped_iff laid kind).1 dropped
      have later : j < i := Fin.lt_def.2 low
      exact .inr ⟨j, ⟨v, visited, rfl, drops.1⟩, later, (deeper_iff later slice).2 high⟩
  · rintro (⟨p, v, visited, -, takes⟩ | ⟨j, ⟨v, visited, place, stray⟩, later, deeper⟩)
    · exact ⟨v, visited, .inl takes⟩
    · obtain ⟨l, rest, -, slice, laid⟩ := visit_slice plain visited
      rw [place] at slice laid
      have kind := (isStrayElse_iff laid).1 stray
      have dropped := (mem_dropped_iff laid kind).2 ⟨later, (deeper_iff later slice).1 deeper⟩
      exact ⟨v, visited, .inr (.inr ((drops_iff laid).2 ⟨kind, dropped⟩))⟩

end Places

/-- Without groups, what becomes of a line can be read off the indents of the whole script. -/
theorem layout_follows_indentation (lines : List Line)
    (plain : ∀ l ∈ lines, l.isBegin = false) :
    stmts (layout 0 lines) = (Program.ofLines lines).body ∧
    (∀ i j : Fin lines.length, Owns (layout 0 lines) i j ↔
      lines[i].isOwner = true ∧ ↑i ∈ yields (layout 0 lines) ∧ ↑j ∈ yields (layout 0 lines) ∧
        i < j ∧ Deeper lines i j) ∧
    (∀ i j : Fin lines.length, ElseOf (layout 0 lines) i j ↔
      lines[i].isBranch = true ∧ lines[j].isElse = true ∧ ↑i ∈ yields (layout 0 lines) ∧ i < j ∧
        lines[j].indent = lines[i].indent ∧
        ∀ k, i < k → k < j → lines[i].indent < lines[k].indent) ∧
    (∀ v ∈ visits (layout 0 lines), ∀ j k : Fin lines.length, v.1.TakesElse j →
      (↑k ∈ (rows v.1.otherwise).map Prod.snd ↔ j < k ∧ Deeper lines j k)) ∧
    (∀ j : Fin lines.length, lines[j].isElse = true → ↑j ∈ yields (layout 0 lines) →
      StrayAt (layout 0 lines) j) ∧
    (∀ i : Fin lines.length, ↑i ∉ yields (layout 0 lines) ↔
      (∃ p : Fin lines.length, ElseOf (layout 0 lines) p i) ∨
        ∃ j : Fin lines.length, StrayAt (layout 0 lines) j ∧ j < i ∧ Deeper lines j i) := by
  refine ⟨stmts_layout 0 lines, owns_iff plain, elseOf_iff plain, ?_, ?_,
    not_mem_yields_iff_else_or_stray plain⟩
  · intro v visited j k takes
    exact rows_otherwise_iff plain visited takes k
  · intro j word yielding
    exact strayAt_of_else plain word yielding

/-- Two `else` lines that belong to an `if`, a stray one, and lines deeper than they need be. -/
def elseLadder : List Line :=
  [⟨1, 0, "if a"⟩, ⟨2, 2, "if b"⟩, ⟨3, 4, "print 1"⟩, ⟨4, 2, "else"⟩, ⟨5, 6, "end"⟩, ⟨6, 0, "else"⟩,
    ⟨7, 2, "else"⟩, ⟨8, 4, "break"⟩, ⟨9, 0, "while c"⟩]

theorem layout_follows_indentation_ladder :
    (∀ l ∈ elseLadder, l.isBegin = false) ∧ Owns (layout 0 elseLadder) 0 4 ∧
      ElseOf (layout 0 elseLadder) 1 3 ∧ StrayAt (layout 0 elseLadder) 6 ∧
      7 ∉ yields (layout 0 elseLadder) := by
  have plain : ∀ l ∈ elseLadder, l.isBegin = false := by decide
  have places : yields (layout 0 elseLadder) = [0, 1, 2, 4, 6, 8] := by decide +kernel
  obtain ⟨-, owns, elses, -, strays, spares⟩ := layout_follows_indentation elseLadder plain
  rw [places] at owns elses strays spares
  have stray := strays ⟨6, by decide⟩ (by decide) (by decide)
  refine ⟨plain, ?_, ?_, stray, ?_⟩
  · exact (owns ⟨0, by decide⟩ ⟨4, by decide⟩).2
      ⟨by decide, by decide, by decide, by decide, by unfold Deeper; decide⟩
  · exact (elses ⟨1, by decide⟩ ⟨3, by decide⟩).2
      ⟨by decide, by decide, by decide, by decide, by decide, by decide⟩
  · rw [places]
    exact (spares ⟨7, by decide⟩).2
      (.inr ⟨⟨6, by decide⟩, stray, by decide, by unfold Deeper; decide⟩)

end RobotScript
