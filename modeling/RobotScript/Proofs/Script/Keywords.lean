import Mathlib.Logic.Basic
import RobotScript.Script.Line

/-!
# Keywords

A keyword is all of the letters that a line starts with. So a line starts with at most one keyword,
and its first word and what follows tell its kind.
-/

namespace RobotScript

/-- The letters that a line starts with, in lower case. -/
def Line.word (l : Line) : String :=
  String.ofList ((l.text.toList.takeWhile Char.isAlpha).map Char.toLower)

/-- What follows them. -/
def Line.rest (l : Line) : List Char := l.text.toList.dropWhile Char.isAlpha

/-- The line holds the word `w` and nothing else. -/
def Line.Bare (l : Line) (w : String) : Prop := l.word = w ∧ Text.allBlank l.rest = true

instance (l : Line) (w : String) : Decidable (l.Bare w) :=
  inferInstanceAs (Decidable (l.word = w ∧ Text.allBlank l.rest = true))

theorem not_upper_of_isLower {w : Char} (lower : w.isLower = true) :
    ¬(w.val ≥ 'A'.val ∧ w.val ≤ 'Z'.val) := by
  unfold Char.isLower at lower
  simp only [Bool.and_eq_true, decide_eq_true_eq] at lower
  intro upper
  have crossed : 'a'.val ≤ 'Z'.val := UInt32.le_trans lower.1 upper.2
  revert crossed
  decide

theorem toLower_of_isLower {w : Char} (lower : w.isLower = true) : w.toLower = w :=
  dif_neg (not_upper_of_isLower lower)

theorem isAlpha_of_toLower {c w : Char} (lower : w.isLower = true) (same : c.toLower = w) :
    c.isAlpha = true := by
  unfold Char.isAlpha Char.isUpper
  unfold Char.toLower at same
  by_cases upper : c.val ≥ 'A'.val ∧ c.val ≤ 'Z'.val
  · rw [decide_eq_true upper, Bool.true_or]
  · rw [dif_neg upper] at same
    rw [same, lower, Bool.or_true]

/-- The letters of a word in lower case, followed by no letter, are all of the letters at the start
of `cs`. -/
theorem afterWord?_filter {word : List Char} (lower : ∀ w ∈ word, w.isLower = true)
    (cs : List Char) :
    (Text.afterWord? cs word).filter (fun rest => !rest.head?.any Char.isAlpha) =
      if (cs.takeWhile Char.isAlpha).map Char.toLower = word then some (cs.dropWhile Char.isAlpha)
      else none := by
  induction word generalizing cs with
  | nil =>
    cases cs with
    | nil => simp [Text.afterWord?]
    | cons c cs => cases letter : c.isAlpha <;> simp [Text.afterWord?, letter]
  | cons w word ih =>
    have low := lower w List.mem_cons_self
    have rest := ih fun v member => lower v (List.mem_cons_of_mem w member)
    cases cs with
    | nil => simp [Text.afterWord?]
    | cons c cs =>
      rw [Text.afterWord?, toLower_of_isLower low]
      by_cases same : c.toLower = w
      · simp [same, isAlpha_of_toLower low same, rest]
      · cases letter : c.isAlpha <;> simp [same, letter]

section Kind

variable {l : Line} {w : String}

theorem afterKeyword?_eq (l : Line) (lower : w.toList.all Char.isLower = true) :
    afterKeyword? w l.text.toList = if l.word = w then some l.rest else none := by
  have same : l.word = w ↔ (l.text.toList.takeWhile Char.isAlpha).map Char.toLower = w.toList := by
    rw [Line.word, ← String.toList_inj, String.toList_ofList]
  simp only [same]
  exact afterWord?_filter (List.all_eq_true.1 lower) l.text.toList

theorem isBareKeyword_iff (l : Line) (lower : w.toList.all Char.isLower = true) :
    isBareKeyword w l.text.toList = true ↔ l.Bare w := by
  rw [isBareKeyword, afterKeyword?_eq l lower, Line.Bare]
  by_cases same : l.word = w <;> simp [same]

theorem isBegin_iff : l.isBegin = true ↔ l.Bare "begin" := isBareKeyword_iff l (by decide)

theorem isEnd_iff : l.isEnd = true ↔ l.Bare "end" := isBareKeyword_iff l (by decide)

theorem isElse_iff : l.isElse = true ↔ l.Bare "else" := isBareKeyword_iff l (by decide)

/-- No two keywords are tried on one word, so their order does not matter. -/
theorem kind_eq (l : Line) :
    l.kind =
      if l.word = "if" then .branch (Expr.ofText l.rest)
      else if l.word = "while" then .loop (Expr.ofText l.rest)
      else if l.Bare "forever" then .forever
      else if l.Bare "else" then .otherwise
      else if l.Bare "begin" then .opening
      else if l.Bare "end" then .closing
      else if l.Bare "break" then .single (.leave l.number)
      else if l.Bare "continue" then .single (.again l.number)
      else if l.word = "set" then .single (.ofSet l.number l.rest)
      else if l.word = "println" then .single (.ofPrint l.number true l.rest)
      else if l.word = "print" then .single (.ofPrint l.number false l.rest)
      else .single (.command l.number l.text) := by
  have after : ∀ w ∈ ["if", "while", "set", "println", "print"],
      afterKeyword? w l.text.toList = if l.word = w then some l.rest else none := by
    intro w member
    apply afterKeyword?_eq l
    revert w
    decide
  have bare : ∀ w ∈ ["forever", "else", "begin", "end", "break", "continue"],
      isBareKeyword w l.text.toList = decide (l.Bare w) := by
    intro w member
    rw [Bool.eq_iff_iff, decide_eq_true_iff]
    apply isBareKeyword_iff l
    revert w
    decide
  simp only [List.forall_mem_cons] at after bare
  unfold Line.kind
  simp only [after, bare, decide_eq_true_eq]
  by_cases branch : l.word = "if"
  · simp only [if_pos branch]
  by_cases loop : l.word = "while"
  · simp only [if_neg branch, if_pos loop]
  by_cases set : l.word = "set"
  · simp only [if_neg branch, if_neg loop, if_pos set]
  by_cases println : l.word = "println"
  · simp only [if_neg branch, if_neg loop, if_neg set, if_pos println]
  by_cases print : l.word = "print"
  · simp only [if_neg branch, if_neg loop, if_neg set, if_neg println, if_pos print]
  · simp only [if_neg branch, if_neg loop, if_neg set, if_neg println, if_neg print]

theorem kind_of_if (word : l.word = "if") : l.kind = .branch (Expr.ofText l.rest) := by
  rw [kind_eq, if_pos word]

theorem kind_of_while (word : l.word = "while") : l.kind = .loop (Expr.ofText l.rest) := by
  simp [kind_eq, word]

theorem kind_of_forever (bare : l.Bare "forever") : l.kind = .forever := by
  simp [kind_eq, Line.Bare, bare.1, bare.2]

theorem kind_of_else (bare : l.Bare "else") : l.kind = .otherwise := by
  simp [kind_eq, Line.Bare, bare.1, bare.2]

theorem kind_of_begin (bare : l.Bare "begin") : l.kind = .opening := by
  simp [kind_eq, Line.Bare, bare.1, bare.2]

theorem kind_of_end (bare : l.Bare "end") : l.kind = .closing := by
  simp [kind_eq, Line.Bare, bare.1, bare.2]

/-! The parser also looks for `else`, `begin` and `end` apart from the kind of a line. -/

theorem bare_iff_kind {kind : Line.Kind}
    (keyword : (w, kind) ∈ [("else", .otherwise), ("begin", .opening), ("end", .closing)]) :
    l.Bare w ↔ l.kind = kind := by
  simp only [List.mem_cons, Prod.mk.injEq, List.not_mem_nil, or_false] at keyword
  constructor
  · intro bare
    rcases keyword with ⟨rfl, rfl⟩ | ⟨rfl, rfl⟩ | ⟨rfl, rfl⟩
    · exact kind_of_else bare
    · exact kind_of_begin bare
    · exact kind_of_end bare
  · intro same
    simp only [kind_eq, ite_eq_iff] at same
    rcases keyword with ⟨rfl, rfl⟩ | ⟨rfl, rfl⟩ | ⟨rfl, rfl⟩
    all_goals
      simp only [reduceCtorEq, and_false, or_false, false_or, and_true] at same
      simp only [same]

theorem isElse_iff_kind : l.isElse = true ↔ l.kind = .otherwise :=
  isElse_iff.trans (bare_iff_kind (by simp))

theorem isBegin_iff_kind : l.isBegin = true ↔ l.kind = .opening :=
  isBegin_iff.trans (bare_iff_kind (by simp))

theorem isEnd_iff_kind : l.isEnd = true ↔ l.kind = .closing :=
  isEnd_iff.trans (bare_iff_kind (by simp))

end Kind

end RobotScript
