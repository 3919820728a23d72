import Mathlib.Data.List.TakeWhile
import RobotScript.Proofs.Script.Keywords
import RobotScript.Proofs.Script.Layout

/-!
# Slices of a script

Without groups, the lines of a block are a slice of the script that ends where a line is shallower
than all of them. So the deeper lines right below a line are the same in its block and in the
script.
-/

namespace RobotScript

open Block

/-! ### Runs of deeper lines -/

theorem lt_length_body {indent n : Nat} {lines : List Line} :
    n < (body indent lines).length ↔
      ∀ k ≤ n, ∃ m, lines[k]? = some m ∧ indent < m.indent := by
  induction lines generalizing n with
  | nil =>
    simp only [body, List.takeWhile_nil, List.length_nil, Nat.not_lt_zero, false_iff]
    intro all
    simpa using all 0 (Nat.zero_le n)
  | cons l lines ih =>
    by_cases deeper : indent < l.indent
    · have longer : body indent (l :: lines) = l :: body indent lines := by simp [body, deeper]
      rw [longer, List.length_cons]
      cases n with
      | zero => simpa using deeper
      | succ n =>
        rw [Nat.add_lt_add_iff_right, ih]
        constructor
        · intro all k le
          cases k with
          | zero => exact ⟨l, rfl, deeper⟩
          | succ k => exact all k (by omega)
        · intro all k le
          exact all (k + 1) (by omega)
    · have empty : body indent (l :: lines) = [] := by simp [body, deeper]
      rw [empty]
      constructor
      · intro low
        cases low
      · intro all
        obtain ⟨m, same, low⟩ := all 0 (Nat.zero_le n)
        cases same
        exact absurd low deeper

theorem head?_after {indent : Nat} {lines : List Line} {b : Line}
    (next : (after indent lines).head? = some b) : b.indent ≤ indent := by
  have shallow := List.head?_dropWhile_not (fun l : Line => decide (indent < l.indent)) lines
  rw [show (lines.dropWhile _).head? = some b from next] at shallow
  simpa using shallow

theorem mem_body {indent : Nat} {lines : List Line} {m : Line} (member : m ∈ body indent lines) :
    indent < m.indent := by
  simpa using List.mem_takeWhile_imp member

/-- Lines that go back to `indent` or further end every body at that indent. -/
theorem body_append {indent : Nat} {lines post : List Line}
    (ends : ∀ b ∈ post.head?, b.indent ≤ indent) :
    body indent (lines ++ post) = body indent lines := by
  have shallow : body indent post = [] := by
    cases post with
    | nil => rfl
    | cons b post =>
      have := ends b rfl
      simp [body, this]
  unfold body at shallow ⊢
  rw [List.takeWhile_append]
  split
  · rename_i all
    rw [shallow, List.append_nil]
    exact ((List.takeWhile_prefix _).eq_of_length all).symm
  · rfl

/-! ### Slices -/

/-- `ls` are lines of the script from place `start` on, up to a line that is shallower than all of
them. -/
def Slice (lines : List Line) (start : Nat) (ls : List Line) : Prop :=
  ∃ post, lines.drop start = ls ++ post ∧ ∀ b ∈ post.head?, ∀ l ∈ ls, b.indent < l.indent

section Slice

variable {lines ls rest xs ys : List Line} {l e : Line} {start i : Nat}

theorem slice_all (lines : List Line) : Slice lines 0 lines := by
  exact ⟨[], by simp, by simp⟩

theorem slice_nil (lines : List Line) (start : Nat) : Slice lines start [] := by
  exact ⟨lines.drop start, rfl, by simp⟩

theorem slice_append (slice : Slice lines start (xs ++ ys)) :
    Slice lines (start + xs.length) ys := by
  obtain ⟨post, whole, ends⟩ := slice
  refine ⟨post, ?_, ?_⟩
  · rw [← List.drop_drop, whole, List.append_assoc, List.drop_left]
  · intro b next l member
    exact ends b next l (List.mem_append_right xs member)

theorem slice_head (slice : Slice lines i (l :: rest)) : lines[i]? = some l := by
  obtain ⟨post, whole, -⟩ := slice
  have first := congrArg List.head? whole
  simpa using first

theorem slice_end (slice : Slice lines start ls) {b : Line}
    (next : lines[start + ls.length]? = some b) (member : l ∈ ls) : b.indent < l.indent := by
  obtain ⟨post, whole, ends⟩ := slice
  apply ends b _ l member
  have last : lines[start + ls.length]? = (ls ++ post)[ls.length]? := by
    rw [← whole, List.getElem?_drop]
  rw [next, List.getElem?_append_right (Nat.le_refl _), Nat.sub_self] at last
  rw [Option.mem_def, List.head?_eq_getElem?, last]

theorem slice_below (slice : Slice lines i (l :: rest)) :
    ∃ post, lines.drop (i + 1) = rest ++ post ∧ ∀ b ∈ post.head?, b.indent < l.indent := by
  obtain ⟨post, whole, ends⟩ := slice
  refine ⟨post, ?_, ?_⟩
  · rw [← List.drop_drop, whole]
    rfl
  · intro b next
    exact ends b next l List.mem_cons_self

/-- The deeper lines below a line of a slice are a slice too. -/
theorem slice_body (slice : Slice lines i (l :: rest)) :
    Slice lines (i + 1) (body l.indent rest) := by
  obtain ⟨post, below, ends⟩ := slice_below slice
  refine ⟨after l.indent rest ++ post, ?_, ?_⟩
  · rw [below, ← List.append_assoc, body_append_after]
  · intro b next m member
    have deeper := mem_body member
    -- what follows the body is the next line of the slice, or what ends the slice
    cases later : after l.indent rest with
    | nil =>
      rw [later] at next
      have shallow := ends b next
      omega
    | cons b' later' =>
      have first : (after l.indent rest).head? = some b := by
        rw [later] at next ⊢
        exact next
      have shallow := head?_after first
      omega

/-- Below a line of a slice, the deeper lines are the same in the slice and in the script. -/
theorem body_slice (slice : Slice lines i (l :: rest)) :
    body l.indent (lines.drop (i + 1)) = body l.indent rest := by
  obtain ⟨post, below, ends⟩ := slice_below slice
  rw [below]
  apply body_append
  intro b next
  exact Nat.le_of_lt (ends b next)

end Slice

/-! ### Cuts without groups -/

section Cut

variable {lines rest rest' : List Line} {l e : Line} {start : Nat}

theorem kind_ne_opening (plain : l.isBegin = false) : l.kind ≠ .opening := by
  intro kind
  rw [isBegin_iff_kind.2 kind] at plain
  cases plain

theorem cut_inside (plain : l.isBegin = false) (rest : List Line) :
    (cut l rest).inside = if l.isOwner then body l.indent rest else [] := by
  have shape := cuts l rest
  generalize cut l rest = c at shape ⊢
  cases shape with
  | branch branch =>
    obtain ⟨condition, kind⟩ := isBranch_iff.1 branch
    simp [Line.isOwner, kind]
  | owner owner => simp [owner]
  | stray kind => simp [Line.isOwner, kind]
  | closed kind | unclosed kind => exact absurd kind (kind_ne_opening plain)
  | alone alone => simp [alone]

theorem cut_else (plain : l.isBegin = false) (marked : (cut l rest).mark = some e) :
    ∃ rest', after l.indent rest = e :: rest' ∧ l.isBranch = true ∧ e.isElse = true ∧
      e.indent = l.indent ∧ (cut l rest).inside = body l.indent rest ∧
      (cut l rest).otherwise = body l.indent rest' := by
  have shape := cuts l rest
  generalize cut l rest = c at shape marked ⊢
  cases shape with
  | branch branch here level word =>
    cases marked
    exact ⟨_, here, branch, word, level, rfl, rfl⟩
  | closed kind => exact absurd kind (kind_ne_opening plain)
  | _ => cases marked

theorem cut_mark_of_else (branch : l.isBranch = true) (here : after l.indent rest = e :: rest')
    (level : e.indent = l.indent) (word : e.isElse = true) : (cut l rest).mark = some e := by
  have found := elseBranch?_eq_some.2 ⟨e, rest', here, level, word, rfl, rfl⟩
  obtain ⟨condition, kind⟩ := isBranch_iff.1 branch
  simp only [cut, kind, found]
  rw [here]
  rfl

theorem cut_unmarked (unmarked : (cut l rest).mark = none) :
    (cut l rest).otherwise = [] := by
  have shape := cuts l rest
  generalize cut l rest = c at shape unmarked ⊢
  cases shape with
  | branch => cases unmarked
  | _ => rfl

theorem slice_else (slice : Slice lines start (l :: rest))
    (here : after l.indent rest = e :: rest') :
    Slice lines (start + 1 + (body l.indent rest).length) (e :: rest') := by
  have parts : l :: rest = (l :: body l.indent rest) ++ (e :: rest') := by
    rw [← here, List.cons_append, body_append_after]
  rw [parts] at slice
  have later := slice_append slice
  rw [List.length_cons] at later
  rwa [Nat.add_assoc, Nat.add_comm 1]

/-- The parts of a slice are slices. -/
theorem slice_cut (plain : l.isBegin = false) (slice : Slice lines start (l :: rest)) :
    Slice lines (start + 1) (cut l rest).inside ∧
      Slice lines ((cut l rest).atOther start) (cut l rest).otherwise ∧
      Slice lines ((cut l rest).atNext start) (cut l rest).next := by
  refine ⟨?_, ?_, ?_⟩
  · rw [cut_inside plain]
    split
    · exact slice_body slice
    · exact slice_nil lines _
  · cases marked : (cut l rest).mark with
    | none =>
      rw [cut_unmarked marked]
      exact slice_nil lines _
    | some e =>
      obtain ⟨rest', here, -, -, level, inside, other⟩ := cut_else plain marked
      have branch := slice_body (slice_else slice here)
      rw [other, Cut.atOther, Cut.atMark, marked, inside, ← level]
      rw [level] at branch ⊢
      exact branch
  · rw [cut_parts l rest] at slice
    have regroup : ∀ a b c d e : List Line,
        l :: (a ++ (b ++ (c ++ (d ++ e)))) = (l :: (a ++ (b ++ (c ++ d)))) ++ e := by simp
    rw [regroup] at slice
    have later := slice_append slice
    have place : start + (l :: ((cut l rest).inside ++ ((cut l rest).mark.toList ++
        ((cut l rest).otherwise ++ (cut l rest).dropped)))).length = (cut l rest).atNext start := by
      simp only [Cut.atNext, Cut.atDropped, Cut.atOther, Cut.atMark, List.length_cons,
        List.length_append]
      omega
    rwa [place] at later

end Cut

end RobotScript
