import Mathlib.Data.List.TakeDrop
import Mathlib.Data.List.TakeWhile
import RobotScript.Proofs.Script.Cursor
import RobotScript.Proofs.Script.Recasting

/-!
# Lines that are not seen

Blank lines and comments leave nothing in the program of a source. The other lines keep their
numbers, so a blank line or a comment put in anywhere only moves the numbers after it.
-/

namespace RobotScript

open Program Source Stmt

/-- Whether a raw line is neither blank nor a comment: the first of its characters that is not blank
is not `#`. -/
def isVisible (raw : String) : Bool := (raw.toList.find? (!Text.isBlank ·)).any (· != '#')

/-- A raw line as the parser gets it. -/
def Line.ofRaw (tabWidth : Nat) (raw : String × Nat) : Line :=
  let measured := measureIndent tabWidth (content raw.1).toList
  ⟨raw.2, measured.1, String.ofList measured.2⟩

def Program.renumber (f : Nat → Nat) (p : Program) : Program := ⟨renumberAll f p.body⟩

/-! ### Single lines -/

theorem mem_dropWhile {p : Char → Bool} {c : Char} {cs : List Char} (member : c ∈ cs)
    (kept : p c = false) : c ∈ cs.dropWhile p := by
  rw [← List.takeWhile_append_dropWhile (p := p) (l := cs)] at member
  rcases List.mem_append.1 member with taken | dropped
  · have := List.mem_takeWhile_imp taken
    simp [kept] at this
  · exact dropped

theorem stripComment_blanks {blanks : List Char} (all : ∀ c ∈ blanks, Text.isBlank c = true)
    (cs : List Char) : stripComment (blanks ++ cs) = blanks ++ stripComment cs := by
  induction blanks with
  | nil => rfl
  | cons b blanks ih =>
    obtain ⟨blank, rest⟩ := List.forall_mem_cons.1 all
    have apart : ∀ c, Text.isBlank c = false → (b == c) = false := by
      intro c other
      rw [beq_eq_false_iff_ne]
      rintro rfl
      rw [other] at blank
      cases blank
    have hash := apart '#' (by decide)
    have double := apart '"' (by decide)
    have single := apart '\'' (by decide)
    have same := ih rest
    rw [stripComment] at same ⊢
    simp only [List.cons_append, stripCommentFrom, hash, double, single, Bool.or_self,
      Bool.false_eq_true, if_false]
    rw [same, stripComment]

theorem content_of_allBlank {raw : String} (all : ∀ c ∈ raw.toList, Text.isBlank c = true) :
    (content raw).toList = [] := by
  have whole : stripComment raw.toList = raw.toList := by
    simpa [stripComment, stripCommentFrom] using stripComment_blanks all []
  rw [content, String.toList_ofList, whole, Text.trimEnd, List.reverse_eq_nil_iff,
    List.dropWhile_eq_nil_iff]
  intro c member
  exact all c (List.mem_reverse.1 member)

theorem mem_content {raw : String} {blanks rest : List Char} {c : Char}
    (start : raw.toList = blanks ++ c :: rest) (all : ∀ b ∈ blanks, Text.isBlank b = true)
    (seen : Text.isBlank c = false) (plain : c ≠ '#') : c ∈ (content raw).toList := by
  have kept : c ∈ stripComment raw.toList := by
    rw [start, stripComment_blanks all, stripComment, stripCommentFrom]
    simp [plain]
  rw [content, String.toList_ofList, Text.trimEnd, List.mem_reverse]
  exact mem_dropWhile (List.mem_reverse.2 kept) seen

theorem isIndent_isBlank {c : Char} (indent : isIndent c = true) : Text.isBlank c = true := by
  simp only [isIndent, Bool.or_eq_true, beq_iff_eq] at indent
  rcases indent with rfl | rfl <;> decide

theorem isComment_eq (raw : String) :
    isComment raw = (raw.toList.find? (!Text.isBlank ·) == some '#') := by
  rw [isComment, Text.trimStart, List.find?_eq_head?_dropWhile_not]
  simp only [Bool.not_not]

/-- A line gives the parser nothing exactly if it is not seen. -/
theorem isVisible_iff (tabWidth : Nat) (raw : String) :
    isVisible raw = true ↔
      isComment raw = false ∧ (measureIndent tabWidth (content raw).toList).2 ≠ [] := by
  have span (cs : List Char) : (measureIndent tabWidth cs).2 = cs.dropWhile isIndent := by
    simp [measureIndent, List.span_eq_takeWhile_dropWhile]
  rw [isVisible, isComment_eq, span]
  cases found : raw.toList.find? (!Text.isBlank ·) with
  | none =>
    have all : ∀ c ∈ raw.toList, Text.isBlank c = true := by
      simpa using List.find?_eq_none.1 found
    simp [content_of_allBlank all]
  | some c =>
    obtain ⟨seen, blanks, rest, start, all⟩ := List.find?_eq_some_iff_append.1 found
    by_cases plain : c = '#'
    · simp [plain]
    · have seen : Text.isBlank c = false := by simpa using seen
      have kept : isIndent c = false := by
        rw [Bool.eq_false_iff]
        intro indent
        rw [isIndent_isBlank indent] at seen
        cases seen
      have member := mem_content start (by simpa using all) seen plain
      have nonempty := List.ne_nil_of_mem (mem_dropWhile member kept)
      simp [plain, nonempty]

/-! ### All lines of a source -/

/-- The parser gets the lines that are seen, each with its one-based place in the source. -/
theorem sourceLines_eq (tabWidth : Nat) (s : Source) :
    sourceLines tabWidth s =
      ((s.lines.zipIdx 1).filter (isVisible ·.1)).map (Line.ofRaw tabWidth) := by
  rw [sourceLines, numbered, List.filterMap_filterMap, ← List.filterMap_eq_filter,
    ← List.filterMap_eq_map, List.filterMap_filterMap]
  congr 1
  funext ⟨raw, n⟩
  have seen := isVisible_iff tabWidth raw
  cases shown : isVisible raw with
  | true =>
    obtain ⟨plain, text⟩ := seen.1 shown
    simp [Option.guard, shown, plain, text, Line.ofRaw]
  | false =>
    have text : isComment raw = false → (measureIndent tabWidth (content raw).toList).2 = [] := by
      simpa [shown] using seen
    cases comment : isComment raw with
    | true => simp [Option.guard, shown, comment]
    | false => simp [Option.guard, shown, comment, text comment]

theorem recast_ofRaw (f : Nat → Nat) (tabWidth : Nat) (raw : String × Nat) :
    (Line.ofRaw tabWidth raw).recast f id = Line.ofRaw tabWidth (raw.1, f raw.2) := by
  simp only [Line.ofRaw, Line.recast, id_eq]

theorem ofSource_renumber {tabWidth : Nat} {s s' : Source} {f : Nat → Nat}
    (same : sourceLines tabWidth s = (sourceLines tabWidth s').map (Line.recast f id)) :
    ofSource tabWidth s = (ofSource tabWidth s').renumber f := by
  rw [ofSource, Program.ofLines, same, Block.parse_recast strictMono_id]
  rfl

/-- The one-based place of the `k`-th line that is seen. -/
def rawNumber (lines : List String) (k : Nat) : Nat :=
  (((lines.zipIdx 1).filter (isVisible ·.1)).map Prod.snd).getD (k - 1) 0

theorem ofSource_filter (tabWidth : Nat) (s : Source) :
    ofSource tabWidth s =
      (ofSource tabWidth (Source.ofLines (s.lines.filter isVisible))).renumber
        (rawNumber s.lines) := by
  apply ofSource_renumber
  have kept : s.lines.filter isVisible =
      ((s.lines.zipIdx 1).filter (isVisible ·.1)).map Prod.fst := by
    rw [← List.zipIdx_map_fst 1 s.lines, List.filter_map, List.zipIdx_map_fst]
    rfl
  have all : (((s.lines.filter isVisible).zipIdx 1).filter (isVisible ·.1)) =
      (s.lines.filter isVisible).zipIdx 1 := by
    rw [List.filter_eq_self]
    rintro ⟨raw, n⟩ member
    exact (List.mem_filter.1 (List.fst_mem_of_mem_zipIdx member)).2
  rw [sourceLines_eq, sourceLines_eq, Source.ofLines, all, kept, List.map_map]
  apply List.ext_getElem
  · simp
  · intro i _ bound
    have inside : i < ((s.lines.zipIdx 1).filter (isVisible ·.1)).length := by simpa using bound
    simp [recast_ofRaw, rawNumber, inside]

theorem ofSource_insert {raw : String} (hidden : isVisible raw = false) (tabWidth : Nat)
    (before after : List String) (cursor cursor' : Nat) :
    ofSource tabWidth ⟨before ++ raw :: after, cursor⟩ =
      (ofSource tabWidth ⟨before ++ after, cursor'⟩).renumber
        fun n => if n ≤ before.length then n else n + 1 := by
  apply ofSource_renumber
  rw [sourceLines_eq, sourceLines_eq]
  simp only [List.zipIdx_append, List.zipIdx_cons, List.filter_append, List.filter_cons, hidden,
    List.map_append, List.map_map, Bool.false_eq_true, if_false]
  congr 1
  · apply List.map_congr_left
    rintro ⟨line, n⟩ member
    have bounds := List.mem_zipIdx (List.mem_filter.1 member).1
    rw [Function.comp_apply, recast_ofRaw, if_pos (by omega)]
  · rw [List.zipIdx_succ, List.filter_map, List.map_map]
    apply List.map_congr_left
    rintro ⟨line, n⟩ member
    have bounds := List.mem_zipIdx (List.mem_filter.1 member).1
    rw [Function.comp_apply, Function.comp_apply, recast_ofRaw, if_neg (by omega)]

/-- What is not seen leaves nothing in a program. The parser reads the source from its start by the
cursor, and what it gets of the lines are those that are seen, with their one-based places. So the
program is that of these lines alone, under their places in the source, and one more line that is
not seen, wherever it is put in, adds one to the numbers after it and changes nothing else. -/
theorem unseen_lines_only_move_numbers (tabWidth : Nat) (s : Source) :
    s.rewind.Reads s.numbered s.exhaust ∧
    sourceLines tabWidth s =
      ((s.lines.zipIdx 1).filter (isVisible ·.1)).map (Line.ofRaw tabWidth) ∧
    ofSource tabWidth s =
      (ofSource tabWidth (Source.ofLines (s.lines.filter isVisible))).renumber
        (rawNumber s.lines) ∧
    ∀ raw, isVisible raw = false → ∀ place ≤ s.lines.length, ∀ cursor,
      ofSource tabWidth ⟨s.lines.take place ++ raw :: s.lines.drop place, cursor⟩ =
        (ofSource tabWidth s).renumber fun n => if n ≤ place then n else n + 1 := by
  refine ⟨reads_numbered s, sourceLines_eq tabWidth s, ofSource_filter tabWidth s, ?_⟩
  intro raw hidden place inside cursor
  have inserted := ofSource_insert hidden tabWidth (s.lines.take place) (s.lines.drop place) cursor
    s.cursor
  rwa [List.take_append_drop, List.length_take_of_le inside] at inserted

/-- A comment between an `if` and its `else`. -/
theorem unseen_lines_only_move_numbers_note :
    isVisible " \t # note" = false ∧
      ofSource 4 ⟨["if a", "\tMOVE 1", " \t # note", "else", "\tMOVE 2"], 0⟩ =
        (ofSource 4 ⟨["if a", "\tMOVE 1", "else", "\tMOVE 2"], 0⟩).renumber
          fun n => if n ≤ 2 then n else n + 1 := by
  have hidden : isVisible " \t # note" = false := by decide
  obtain ⟨-, -, -, insert⟩ :=
    unseen_lines_only_move_numbers 4 ⟨["if a", "\tMOVE 1", "else", "\tMOVE 2"], 0⟩
  exact ⟨hidden, insert " \t # note" hidden 2 (by decide) 0⟩

end RobotScript
