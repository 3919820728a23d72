import Mathlib.Order.Monotone.Basic
import RobotScript.Proofs.Script.Comments

/-!
# Tabs and spaces

Only the order of the indents shapes a program. So the width of a tab does not matter to a script
that is indented by tabs alone, and neither does it matter whether each of them is a tab or so many
spaces.
-/

namespace RobotScript

open Program Text

/-- The columns of a run of blanks. -/
def columns (tabWidth : Nat) (blanks : List Char) : Nat :=
  blanks.foldl (fun n c => n + if c == '\t' then tabWidth else 1) 0

/-- The spaces and tabs that a raw line starts with. -/
def leading (raw : String) : List Char := raw.toList.takeWhile isIndent

/-- What follows them. -/
def trailing (raw : String) : List Char := raw.toList.dropWhile isIndent

/-- The line with every leading tab written as `width` spaces. -/
def spaced (width : Nat) (raw : String) : String :=
  String.ofList <|
    (leading raw).flatMap (fun c => if c == '\t' then List.replicate width ' ' else [c]) ++
      trailing raw

namespace Source

/-- All lines that are seen start with tabs alone, if with blanks at all. -/
def TabIndented (s : Source) : Prop :=
  ∀ raw ∈ s.lines, isVisible raw = true → ∀ c ∈ leading raw, c = '\t'

/-- No line is too deep to be measured with tabs of this width. -/
def Fits (s : Source) (width : Nat) : Prop :=
  ∀ raw ∈ s.lines, isVisible raw = true → (leading raw).length * width < UInt64.size

end Source

/-! ### Measuring -/

theorem leading_append_trailing (raw : String) : leading raw ++ trailing raw = raw.toList :=
  List.takeWhile_append_dropWhile

theorem leading_isBlank {raw : String} {c : Char} (member : c ∈ leading raw) : isBlank c = true :=
  isIndent_isBlank (List.mem_takeWhile_imp member)

theorem columns_replicate (tabWidth n : Nat) (c : Char) :
    columns tabWidth (List.replicate n c) = n * if c == '\t' then tabWidth else 1 := by
  have counted (start : Nat) :
      (List.replicate n c).foldl (fun n c => n + if c == '\t' then tabWidth else 1) start =
        start + n * if c == '\t' then tabWidth else 1 := by
    induction n generalizing start with
    | zero => simp
    | succ n ih =>
      rw [List.replicate_succ, List.foldl_cons, ih, Nat.succ_mul]
      omega
  rw [columns, counted, Nat.zero_add]

theorem isVisible_eq (raw : String) :
    isVisible raw = ((trailing raw).find? (!isBlank ·)).any (· != '#') := by
  have none : (leading raw).find? (!isBlank ·) = none := by
    rw [List.find?_eq_none]
    intro c member
    simp [leading_isBlank member]
  rw [isVisible, ← leading_append_trailing, List.find?_append, none, Option.none_or]

/-- A line that is seen is read as the blanks it starts with and the text after them. -/
theorem ofRaw_eq {raw : String} (visible : isVisible raw = true) (tabWidth n : Nat) :
    Line.ofRaw tabWidth (raw, n) =
      ⟨n, columns tabWidth (leading raw) % UInt64.size,
        String.ofList (trimEnd (stripComment (trailing raw)))⟩ := by
  rw [isVisible_eq, Option.any_eq_true] at visible
  obtain ⟨c, found, plain⟩ := visible
  obtain ⟨solid, blanks, rest, start, all⟩ := List.find?_eq_some_iff_append.1 found
  have solid : isBlank c = false := by simpa using solid
  have all : ∀ b ∈ blanks, isBlank b = true := by simpa using all
  have plain : c ≠ '#' := by simpa using plain
  -- nothing up to `c` is stripped or trimmed
  have text : trimEnd (stripComment (trailing raw)) =
      blanks ++
        c :: trimEnd (stripCommentFrom (if c == '"' || c == '\'' then some c else none) rest) := by
    rw [start, stripComment_blanks all, stripComment, stripCommentFrom]
    simp only [beq_iff_eq, plain, if_false]
    exact trimEnd_append_solid solid _ _
  have whole : (content raw).toList = leading raw ++ trimEnd (stripComment (trailing raw)) := by
    rw [content, String.toList_ofList, ← leading_append_trailing,
      stripComment_blanks fun b member => leading_isBlank member, text, start,
      stripComment_blanks all, stripComment, stripCommentFrom]
    simp only [beq_iff_eq, plain, if_false]
    rw [← List.append_assoc, trimEnd_append_solid solid, List.append_assoc]
  have ends : MaximalRun isIndent (leading raw) (trimEnd (stripComment (trailing raw))) := by
    refine (maximalRun_takeWhile isIndent raw.toList).congr ?_
    change _ = (trailing raw).head?
    rw [text, start]
    cases blanks <;> rfl
  simp only [Line.ofRaw, measureIndent, List.span_eq_takeWhile_dropWhile]
  rw [whole, ends.takeWhile_eq, ends.dropWhile_eq]
  rfl

theorem spaced_parts (width : Nat) (raw : String) :
    leading (spaced width raw) =
        (leading raw).flatMap (fun c => if c == '\t' then List.replicate width ' ' else [c]) ∧
      trailing (spaced width raw) = trailing raw := by
  have run : MaximalRun isIndent
      ((leading raw).flatMap fun c => if c == '\t' then List.replicate width ' ' else [c])
      (trailing raw) := by
    refine ⟨fun c member => ?_, (maximalRun_takeWhile isIndent raw.toList).ends⟩
    obtain ⟨b, blank, written⟩ := List.mem_flatMap.1 member
    split at written
    · rw [List.eq_of_mem_replicate written]
      rfl
    · rw [List.mem_singleton.1 written]
      exact List.mem_takeWhile_imp blank
  rw [leading, trailing, spaced, String.toList_ofList]
  exact ⟨run.takeWhile_eq, run.dropWhile_eq⟩

theorem isVisible_spaced (width : Nat) (raw : String) :
    isVisible (spaced width raw) = isVisible raw := by
  rw [isVisible_eq, isVisible_eq, (spaced_parts width raw).2]

/-! ### Programs -/

/-- A raw line with its tabs counted. -/
def Line.tabbed (raw : String × Nat) : Line :=
  ⟨raw.2, (leading raw.1).length, String.ofList (trimEnd (stripComment (trailing raw.1)))⟩

section Line

variable {raw : String} {width : Nat} (visible : isVisible raw = true)
  (tabs : ∀ c ∈ leading raw, c = '\t') (fits : (leading raw).length * width < UInt64.size)

include visible tabs fits

theorem ofRaw_tabbed (n : Nat) :
    Line.ofRaw width (raw, n) = (Line.tabbed (raw, n)).recast id (· * width) := by
  have run : leading raw = List.replicate (leading raw).length '\t' :=
    List.eq_replicate_iff.2 ⟨rfl, tabs⟩
  have count : columns width (leading raw) = (leading raw).length * width := by
    rw [run, columns_replicate, List.length_replicate]
    rfl
  rw [ofRaw_eq visible, count, Nat.mod_eq_of_lt fits]
  rfl

theorem ofRaw_spaced (tabWidth n : Nat) :
    Line.ofRaw tabWidth (spaced width raw, n) =
      (Line.tabbed (raw, n)).recast id (· * width) := by
  obtain ⟨spaces, rest⟩ := spaced_parts width raw
  have run : leading raw = List.replicate (leading raw).length '\t' :=
    List.eq_replicate_iff.2 ⟨rfl, tabs⟩
  have count : columns tabWidth (leading (spaced width raw)) = (leading raw).length * width := by
    rw [spaces, run, List.flatMap_replicate, List.length_replicate]
    simp [columns_replicate]
  rw [ofRaw_eq ((isVisible_spaced width raw).trans visible), count, Nat.mod_eq_of_lt fits, rest]
  rfl

end Line

section Source

variable {s : Source} {width : Nat} (tabs : s.TabIndented) (fits : s.Fits width)

include tabs fits

theorem sourceLines_tabbed :
    sourceLines width s =
      (((s.lines.zipIdx 1).filter (isVisible ·.1)).map Line.tabbed).map
        (Line.recast id (· * width)) := by
  rw [sourceLines_eq, List.map_map]
  apply List.map_congr_left
  rintro ⟨raw, n⟩ member
  obtain ⟨inside, visible⟩ := List.mem_filter.1 member
  have line := List.fst_mem_of_mem_zipIdx inside
  exact ofRaw_tabbed visible (tabs raw line visible) (fits raw line visible) n

theorem sourceLines_spaced (tabWidth cursor : Nat) :
    sourceLines tabWidth ⟨s.lines.map (spaced width), cursor⟩ =
      (((s.lines.zipIdx 1).filter (isVisible ·.1)).map Line.tabbed).map
        (Line.recast id (· * width)) := by
  have same : (fun raw : String × Nat => isVisible raw.1) ∘ Prod.map (spaced width) id =
      fun raw => isVisible raw.1 := by
    funext raw
    rw [Function.comp_apply, Prod.map_fst, isVisible_spaced]
  rw [sourceLines_eq, List.zipIdx_map, List.filter_map, same, List.map_map, List.map_map]
  apply List.map_congr_left
  rintro ⟨raw, n⟩ member
  obtain ⟨inside, visible⟩ := List.mem_filter.1 member
  have line := List.fst_mem_of_mem_zipIdx inside
  exact ofRaw_spaced visible (tabs raw line visible) (fits raw line visible) tabWidth n

end Source

theorem ofLines_recast {lines : List Line} {f : Nat → Nat}
    (mono : StrictMonoOn f {width | ∃ l ∈ lines, l.indent = width}) :
    ofLines (lines.map (Line.recast id f)) = ofLines lines := by
  rw [ofLines, ofLines, Block.parse_recasts_of_strictMonoOn (Block.recasts_recast id f) mono lines
    fun l member => ⟨l, member, rfl⟩, Stmt.renumberAll_id]

theorem strictMono_mul {width : Nat} (wide : 1 ≤ width) : StrictMono (· * width) :=
  fun _ _ less => Nat.mul_lt_mul_of_pos_right less wide

/-- Only the order of the indents matters. New indents in the same order leave the program of some
lines as it is. So tabs of all widths give a script that is indented by tabs alone the same program,
and so do as many spaces in the place of each tab, as long as the lines can be measured. -/
theorem only_order_of_indents_matters :
    (∀ (lines : List Line) (f : Nat → Nat),
      StrictMonoOn f {width | ∃ l ∈ lines, l.indent = width} →
      ofLines (lines.map fun l => { l with indent := f l.indent }) = ofLines lines) ∧
    ∀ (s : Source), s.TabIndented → ∀ width ≥ 1, s.Fits width → ∀ width' ≥ 1, s.Fits width' →
      ofSource width' s = ofSource width s ∧
      ∀ tabWidth cursor, ofSource tabWidth ⟨s.lines.map (spaced width'), cursor⟩ =
        ofSource width s := by
  refine ⟨fun lines f mono => ofLines_recast mono, ?_⟩
  intro s tabs width wide fits width' wide' fits'
  have tabbed {width : Nat} (wide : 1 ≤ width) (lines : List Line) :
      ofLines (lines.map (Line.recast id (· * width))) = ofLines lines :=
    ofLines_recast ((strictMono_mul wide).strictMonoOn _)
  rw [ofSource, ofSource, sourceLines_tabbed tabs fits, sourceLines_tabbed tabs fits', tabbed wide,
    tabbed wide']
  refine ⟨rfl, fun tabWidth cursor => ?_⟩
  rw [ofSource, sourceLines_spaced tabs fits', tabbed wide']

/-- Blanks before a comment need not be tabs. -/
def tabbedScript : Source :=
  ⟨["if a", "\t\tMOVE 1", "  # go on", "\tMOVE 2", "else", "\tforever", "\t\t\tTURN 9"], 0⟩

/-- An indent of 3 may become 1 if there is none between 0 and 3. -/
theorem only_order_of_indents_matters_tabbedScript :
    StrictMonoOn (fun width => width / 3)
        {width | ∃ l ∈ [(⟨1, 0, "forever"⟩ : Line), ⟨2, 3, "MOVE 1"⟩], l.indent = width} ∧
    ofLines [⟨1, 0, "forever"⟩, ⟨2, 1, "MOVE 1"⟩] = ofLines [⟨1, 0, "forever"⟩, ⟨2, 3, "MOVE 1"⟩] ∧
    tabbedScript.TabIndented ∧ tabbedScript.Fits 4 ∧ tabbedScript.Fits 1 ∧
    ofSource 1 tabbedScript = ofSource 4 tabbedScript ∧
    ofSource 8 ⟨["if a", "  MOVE 1", "  # go on", " MOVE 2", "else", " forever", "   TURN 9"], 0⟩ =
      ofSource 4 tabbedScript := by
  have mono : StrictMonoOn (fun width => width / 3)
      {width | ∃ l ∈ [(⟨1, 0, "forever"⟩ : Line), ⟨2, 3, "MOVE 1"⟩], l.indent = width} := by
    intro a first b second less
    simp only [List.mem_cons, List.not_mem_nil, or_false, Set.mem_ofPred_eq] at first second
    grind
  have tabs : tabbedScript.TabIndented := by
    have all : ∀ raw ∈ tabbedScript.lines, isVisible raw = true →
        (leading raw).all (· == '\t') = true := by decide
    intro raw member visible c inside
    exact eq_of_beq (List.all_eq_true.1 (all raw member visible) c inside)
  have fits : tabbedScript.Fits 4 := by unfold Source.Fits; decide
  have fits' : tabbedScript.Fits 1 := by unfold Source.Fits; decide
  obtain ⟨indents, sources⟩ := only_order_of_indents_matters
  obtain ⟨same, spaces⟩ := sources tabbedScript tabs 4 (by decide) fits 1 (by decide) fits'
  exact ⟨mono, indents [⟨1, 0, "forever"⟩, ⟨2, 3, "MOVE 1"⟩] _ mono, tabs, fits, fits', same,
    spaces 8 0⟩

end RobotScript
