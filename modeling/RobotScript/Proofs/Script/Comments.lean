import RobotScript.Proofs.Expr.Lexemes
import RobotScript.Proofs.Script.Visibility

/-!
# Comments behind expressions

The comment of a line starts at its first `#` outside quotes. Tokens and comments agree on what is
inside quotes, so a comment never cuts an expression and a line means the same with and without
one.
-/

namespace RobotScript

open Text (isBlank trim trimEnd)

/-! ### Reading past a text -/

/-- No comment starts in `cs` when the quote `before` is open, and `after` is open at its end. -/
def Passes (before after : Option Char) (cs : List Char) : Prop :=
  ∀ rest, stripCommentFrom before (cs ++ rest) = cs ++ stripCommentFrom after rest

/-- The characters that matter to comments. -/
def marks : List Char := ['"', '\'', '#']

section Passes

variable {before between after : Option Char} {cs ds rest : List Char} {c quote : Char}

theorem passes_nil : Passes before before [] := fun _ => rfl

theorem Passes.append (first : Passes before between cs) (second : Passes between after ds) :
    Passes before after (cs ++ ds) := by
  intro rest
  rw [List.append_assoc, first, second, List.append_assoc]

theorem passes_plain (plain : ∀ c ∈ cs, c ∉ marks) : Passes none none cs := by
  induction cs with
  | nil => exact passes_nil
  | cons c cs ih =>
    obtain ⟨other, plain⟩ := List.forall_mem_cons.1 plain
    simp only [marks, List.mem_cons, List.not_mem_nil, or_false, not_or] at other
    intro rest
    simp [stripCommentFrom, other, ih plain rest]

theorem passes_inside (inside : quote ∉ cs) : Passes (some quote) (some quote) cs := by
  induction cs with
  | nil => exact passes_nil
  | cons c cs ih =>
    rw [List.mem_cons, not_or] at inside
    intro rest
    simp [stripCommentFrom, Ne.symm inside.1, ih inside.2 rest]

theorem passes_text (quotes : quote = '"' ∨ quote = '\'') (inside : quote ∉ cs) :
    Passes none none (quote :: (cs ++ [quote])) := by
  intro rest
  have notHash : quote ≠ '#' := by rcases quotes with rfl | rfl <;> decide
  simp [stripCommentFrom, notHash, quotes, passes_inside inside (quote :: rest)]

theorem not_mem_marks {p : Char → Bool} (apart : marks.any p = false) (inside : p c = true) :
    c ∉ marks := by
  intro mark
  exact List.any_eq_false.1 apart c mark inside

theorem passes_class {p : Char → Bool} (apart : marks.any p = false)
    (all : ∀ c ∈ cs, p c = true) : Passes none none cs :=
  passes_plain fun c member => not_mem_marks apart (all c member)

theorem Lexeme.passes {t : Token} (lexeme : Lexeme rest cs t) : Passes none none cs := by
  cases lexeme with
  | number _ run => exact passes_class (by decide) run.all
  | name _ run => exact passes_class (by decide) run.all
  | sensor run =>
    have start : Passes none none ['@'] := passes_plain (by simp [marks])
    exact start.append (passes_class (by decide) run.all)
  | text quotes inside => exact passes_text quotes inside
  | @symbol s =>
    apply passes_plain
    intro c member
    obtain ⟨-, -, -, other⟩ := s.text_solid c member
    simp_all [marks]

theorem passes_blanks (blank : ∀ c ∈ cs, isBlank c = true) : Passes none none cs :=
  passes_class (by decide) blank

/-- The quotes of a text that can be cut into tokens are closed. -/
theorem Lexed.passes {ts : List Token} (lexed : Lexed cs ts) : Passes none none cs := by
  induction lexed with
  | blanks blank => exact passes_blanks blank
  | lexeme blank lexeme _ ih => exact (passes_blanks blank).append (lexeme.passes.append ih)

theorem Passes.stripComment_eq (passes : Passes none after cs) : stripComment cs = cs := by
  have whole := passes []
  rwa [stripCommentFrom, List.append_nil] at whole

theorem Passes.stripComment_hash (passes : Passes none none cs) (note : List Char) :
    stripComment (cs ++ '#' :: note) = cs := by
  have cut := passes ('#' :: note)
  rwa [stripCommentFrom, if_pos (by decide), List.append_nil] at cut

/-- A comment that has started goes on to the end. -/
theorem passes_or_cut (before : Option Char) (cs : List Char) :
    (∃ after, Passes before after cs) ∨
      ∀ rest, stripCommentFrom before (cs ++ rest) = stripCommentFrom before cs := by
  induction cs generalizing before with
  | nil => exact .inl ⟨before, passes_nil⟩
  | cons c cs ih =>
    by_cases hash : before = none ∧ c = '#'
    · obtain ⟨rfl, rfl⟩ := hash
      exact .inr fun rest => by simp [stripCommentFrom]
    · -- any other character is kept and leads to a next state
      obtain ⟨next, step⟩ : ∃ next, ∀ ds,
          stripCommentFrom before (c :: ds) = c :: stripCommentFrom next ds := by
        cases before with
        | none =>
          refine ⟨if c == '"' || c == '\'' then some c else none, fun ds => ?_⟩
          rw [stripCommentFrom, if_neg (by simpa using hash)]
        | some quote => exact ⟨if c == quote then none else some quote, fun ds => rfl⟩
      rcases ih next with ⟨after, passes⟩ | cut
      · exact .inl ⟨after, fun rest => by rw [List.cons_append, step, passes, List.cons_append]⟩
      · exact .inr fun rest => by rw [List.cons_append, step, step, cut]

end Passes

/-! ### Trimming -/

section Trim

variable {cs ds gap : List Char} {c : Char}

theorem exists_trimEnd_append (cs : List Char) :
    ∃ gap, (∀ c ∈ gap, isBlank c = true) ∧ cs = trimEnd cs ++ gap := by
  refine ⟨(cs.reverse.takeWhile isBlank).reverse, ?_, ?_⟩
  · intro c member
    exact List.mem_takeWhile_imp (List.mem_reverse.1 member)
  · rw [trimEnd, ← List.reverse_append, List.takeWhile_append_dropWhile, List.reverse_reverse]

theorem trimEnd_append_blanks (blank : ∀ c ∈ gap, isBlank c = true) (cs : List Char) :
    trimEnd (cs ++ gap) = trimEnd cs := by
  rw [trimEnd, trimEnd, List.reverse_append, List.dropWhile_append_of_pos]
  intro c member
  exact blank c (List.mem_reverse.1 member)

theorem trimEnd_append_solid (solid : isBlank c = false) (cs ds : List Char) :
    trimEnd (cs ++ c :: ds) = cs ++ c :: trimEnd ds := by
  simp only [trimEnd, List.reverse_append, List.reverse_cons, List.append_assoc,
    List.dropWhile_append]
  split
  · rename_i empty
    simp_all
  · simp

theorem mem_trim (member : c ∈ cs) (solid : isBlank c = false) : c ∈ trim cs := by
  have started := mem_dropWhile member solid
  exact List.mem_reverse.2 (mem_dropWhile (List.mem_reverse.2 started) solid)

end Trim

/-! ### Lines that hold an expression -/

/-- The line is a statement that ends with an expression, spelled `e`. -/
inductive Line.Holds (l : Line) : List Char → Prop
  | clause (word : l.word ∈ ["if", "while", "print", "println"]) : l.Holds l.rest
  | set {name e} (word : l.word = "set") (rest : l.rest = name ++ '=' :: e) (first : '=' ∉ name) :
    l.Holds e

/-- A text and the indent and the word that it starts with. -/
structure Parts (cs indent word rest : List Char) : Prop where
  eq : cs = indent ++ (word ++ rest)
  indents : MaximalRun isIndent indent (word ++ rest)
  letters : MaximalRun Char.isAlpha word rest

section Raw

variable {tabWidth n : Nat} {raw raw' : String} {indent word rest : List Char}

theorem ofRaw_text (tabWidth n : Nat) (raw : String) :
    (Line.ofRaw tabWidth (raw, n)).text.toList = (content raw).toList.dropWhile isIndent := by
  simp [Line.ofRaw, measureIndent, List.span_eq_takeWhile_dropWhile]

theorem parts_ofRaw (tabWidth n : Nat) (raw : String) :
    ∃ indent word, Parts (content raw).toList indent word (Line.ofRaw tabWidth (raw, n)).rest := by
  have indents := maximalRun_takeWhile isIndent (content raw).toList
  have text := ofRaw_text tabWidth n raw
  rw [← text] at indents
  have letters := maximalRun_takeWhile Char.isAlpha (Line.ofRaw tabWidth (raw, n)).text.toList
  refine ⟨(content raw).toList.takeWhile isIndent, _, ?_, ?_, letters⟩
  · rw [Line.rest, List.takeWhile_append_dropWhile, text, List.takeWhile_append_dropWhile]
  · rwa [Line.rest, List.takeWhile_append_dropWhile]

theorem Parts.text_eq (parts : Parts (content raw).toList indent word rest) :
    (Line.ofRaw tabWidth (raw, n)).text.toList = word ++ rest := by
  rw [ofRaw_text, parts.eq, parts.indents.dropWhile_eq]

theorem Parts.word_eq (parts : Parts (content raw).toList indent word rest) :
    (Line.ofRaw tabWidth (raw, n)).word = String.ofList (word.map Char.toLower) := by
  rw [Line.word, parts.text_eq, parts.letters.takeWhile_eq]

theorem Parts.rest_eq (parts : Parts (content raw).toList indent word rest) :
    (Line.ofRaw tabWidth (raw, n)).rest = rest := by
  rw [Line.rest, parts.text_eq, parts.letters.dropWhile_eq]

theorem Parts.indent_eq (parts : Parts (content raw).toList indent word rest) :
    (Line.ofRaw tabWidth (raw, n)).indent =
      indent.foldl (fun n c => n + if c == '\t' then tabWidth else 1) 0 % UInt64.size := by
  simp only [Line.ofRaw, measureIndent, List.span_eq_takeWhile_dropWhile]
  rw [parts.eq, parts.indents.takeWhile_eq]

theorem Parts.passes (parts : Parts (content raw).toList indent word rest) :
    Passes none none (indent ++ word) := by
  have spaces : Passes none none indent := passes_class (by decide) parts.indents.all
  exact spaces.append (passes_class (by decide) parts.letters.all)

theorem ofRaw_congr (same : content raw' = content raw) :
    Line.ofRaw tabWidth (raw', n) = Line.ofRaw tabWidth (raw, n) := by
  simp only [Line.ofRaw, same]

end Raw

theorem MaximalRun.congr {p : Char → Bool} {cs rest rest' : List Char} (run : MaximalRun p cs rest)
    (same : rest'.head? = rest.head?) : MaximalRun p cs rest' :=
  ⟨run.all, same ▸ run.ends⟩

/-! ### Names that cannot be assigned -/

theorem isIdentifier_nameChars {cs : List Char} (named : isIdentifier cs = true) :
    ∀ c ∈ cs, isNameChar c = true := by
  cases cs with
  | nil => simp
  | cons c cs =>
    simp only [isIdentifier, Bool.and_eq_true, List.all_eq_true] at named
    exact List.forall_mem_cons.2 ⟨isNameStart_isNameChar named.1, named.2⟩

theorem plain_of_isIdentifier {name : List Char} (named : isIdentifier (trim name) = true) :
    ∀ c ∈ name, c ∉ marks := by
  intro c member
  cases blank : isBlank c with
  | true => exact not_mem_marks (by decide) blank
  | false =>
    have inside := isIdentifier_nameChars named c (mem_trim member blank)
    exact not_mem_marks (by decide) inside

theorem kind_of_badName {l : Line} {name e : List Char} (word : l.word = "set")
    (rest : l.rest = name ++ '=' :: e) (first : '=' ∉ name)
    (unnamed : isIdentifier (trim name) = false) :
    l.kind = .single (.invalid l.number (.badName (String.ofList (trim name)))) := by
  obtain ⟨later, before⟩ := dropWhile_quote (r := e) first
  simp [kind_eq, Line.Bare, word, rest, Stmt.ofSet, later, before, unnamed]

/-! ### Adding a comment -/

section Comment

variable {tabWidth n : Nat} {raw gap note : String} {e : List Char} {ts : List Token}

/-- The line with a comment behind it. -/
def commented (raw gap note : String) : String := raw ++ gap ++ "#" ++ note

theorem toList_commented (raw gap note : String) :
    (commented raw gap note).toList = raw.toList ++ (gap.toList ++ '#' :: note.toList) := by
  simp [commented, String.toList_append]

theorem content_of_closed (closed : Passes none none raw.toList)
    (blank : ∀ c ∈ gap.toList, isBlank c = true) (note : String) :
    content (commented raw gap note) = content raw := by
  have stripped := (closed.append (passes_blanks blank)).stripComment_hash note.toList
  rw [List.append_assoc] at stripped
  rw [content, content, toList_commented, stripped, closed.stripComment_eq,
    trimEnd_append_blanks blank]

theorem content_of_cut
    (cut : ∀ rest, stripCommentFrom none (raw.toList ++ rest) = stripCommentFrom none raw.toList)
    (gap note : String) : content (commented raw gap note) = content raw := by
  rw [content, content, toList_commented, stripComment, cut, stripComment]

/-- A line without a comment is what the parser gets of it, and blanks. -/
theorem Passes.parts {after : Option Char} (passes : Passes none after raw.toList)
    (tabWidth n : Nat) :
    ∃ indent word ends, Parts (content raw).toList indent word (Line.ofRaw tabWidth (raw, n)).rest ∧
      (∀ c ∈ ends, isBlank c = true) ∧
      raw.toList = indent ++ (word ++ (Line.ofRaw tabWidth (raw, n)).rest) ++ ends := by
  obtain ⟨indent, word, parts⟩ := parts_ofRaw tabWidth n raw
  obtain ⟨ends, blank, whole⟩ := exists_trimEnd_append raw.toList
  have trimmed : (content raw).toList = trimEnd raw.toList := by
    rw [content, String.toList_ofList, passes.stripComment_eq]
  rw [← trimmed, parts.eq] at whole
  exact ⟨indent, word, ends, parts, blank, whole⟩

theorem Passes.closed {after : Option Char} (passes : Passes none after raw.toList)
    (rest : Passes none none (Line.ofRaw tabWidth (raw, n)).rest) :
    Passes none none raw.toList := by
  obtain ⟨indent, word, ends, parts, blank, whole⟩ := passes.parts tabWidth n
  rw [whole, ← List.append_assoc]
  exact (parts.passes.append rest).append (passes_blanks blank)

theorem kind_of_open {after : Option Char} {name : List Char}
    (passes : Passes none after raw.toList)
    (word : (Line.ofRaw tabWidth (raw, n)).word = "set")
    (rest : (Line.ofRaw tabWidth (raw, n)).rest = name ++ '=' :: e) (first : '=' ∉ name)
    (unnamed : isIdentifier (trim name) = false) (gap note : String) :
    (Line.ofRaw tabWidth (commented raw gap note, n)).indent =
        (Line.ofRaw tabWidth (raw, n)).indent ∧
      (Line.ofRaw tabWidth (commented raw gap note, n)).kind =
        (Line.ofRaw tabWidth (raw, n)).kind := by
  obtain ⟨indent, letters, ends, parts, -, whole⟩ := passes.parts tabWidth n
  rw [rest] at parts whole
  have parts' : Parts (content (commented raw gap note)).toList indent letters
      (name ++ '=' :: trimEnd (e ++ ends ++
        stripCommentFrom after (gap.toList ++ '#' :: note.toList))) := by
    refine ⟨?_, parts.indents.congr ?_, parts.letters.congr ?_⟩
    · -- no trimming gets past `=` to what stands before it
      have solid := trimEnd_append_solid (c := '=') (by decide) (indent ++ (letters ++ name))
        (e ++ ends ++ stripCommentFrom after (gap.toList ++ '#' :: note.toList))
      rw [content, String.toList_ofList, toList_commented, stripComment, passes, whole]
      simpa using solid
    · cases letters <;> cases name <;> rfl
    · cases name <;> rfl
  have word' : (Line.ofRaw tabWidth (commented raw gap note, n)).word = "set" := by
    rw [parts'.word_eq, ← parts.word_eq, word]
  rw [kind_of_badName word rest first unnamed, kind_of_badName word' parts'.rest_eq first unnamed,
    parts.indent_eq, parts'.indent_eq]
  exact ⟨rfl, rfl⟩

theorem ofRaw_commented (holds : (Line.ofRaw tabWidth (raw, n)).Holds e)
    (scanned : Token.scan e = .ok ts) (blank : ∀ c ∈ gap.toList, isBlank c = true)
    (note : String) :
    (Line.ofRaw tabWidth (commented raw gap note, n)).indent =
        (Line.ofRaw tabWidth (raw, n)).indent ∧
      (Line.ofRaw tabWidth (commented raw gap note, n)).kind =
        (Line.ofRaw tabWidth (raw, n)).kind := by
  have same (content_eq : content (commented raw gap note) = content raw) :
      Line.ofRaw tabWidth (commented raw gap note, n) = Line.ofRaw tabWidth (raw, n) :=
    ofRaw_congr content_eq
  have lexed := (lexed_of_scan scanned).passes
  rcases passes_or_cut none raw.toList with ⟨after, passes⟩ | cut
  · cases holds with
    | clause =>
      rw [same (content_of_closed (passes.closed lexed) blank note)]
      exact ⟨rfl, rfl⟩
    | @set name e word rest first =>
      -- a quote may be open in `name`, and then no comment starts behind `e`; but such a `name` is
      -- refused, and what follows it does not matter
      cases named : isIdentifier (trim name) with
      | false => exact kind_of_open passes word rest first named gap note
      | true =>
        have assigns : Passes none none (name ++ ['=']) :=
          (passes_plain (plain_of_isIdentifier named)).append (passes_plain (by simp [marks]))
        have closed := assigns.append lexed
        rw [← List.append_cons, ← rest] at closed
        rw [same (content_of_closed (passes.closed closed) blank note)]
        exact ⟨rfl, rfl⟩
  · rw [same (content_of_cut cut gap note)]
    exact ⟨rfl, rfl⟩

theorem isVisible_commented (blank : ∀ c ∈ gap.toList, isBlank c = true) (raw note : String) :
    isVisible (commented raw gap note) = isVisible raw := by
  have hash : (gap.toList ++ '#' :: note.toList).find? (!isBlank ·) = some '#' := by
    rw [List.find?_append, List.find?_eq_none.2 (by simpa using blank)]
    rfl
  rw [isVisible, isVisible, toList_commented, List.find?_append, hash]
  cases raw.toList.find? (!isBlank ·) <;> simp

/-- The line `new` in the place of `old`. -/
def Line.replaced (old new l : Line) : Line := if l = old then new else l

theorem recasts_replaced {old new : Line} (number : new.number = old.number)
    (indent : new.indent = old.indent) (kind : new.kind = old.kind) :
    Recasts id id (Line.replaced old new) where
  number l := by unfold Line.replaced; split <;> simp_all
  indent l := by unfold Line.replaced; split <;> simp_all
  kind l := by unfold Line.replaced; split <;> simp_all [Line.Kind.renumber_id]

theorem map_replaced {old : Line} (new : Line) {lines : List String} {first : Nat}
    (apart : old.number < first ∨ first + lines.length ≤ old.number) (tabWidth : Nat) :
    ((lines.zipIdx first).filter (isVisible ·.1)).map
        (Line.replaced old new ∘ Line.ofRaw tabWidth) =
      ((lines.zipIdx first).filter (isVisible ·.1)).map (Line.ofRaw tabWidth) := by
  apply List.map_congr_left
  rintro ⟨raw, m⟩ member
  apply if_neg
  intro same
  have number : m = old.number := congrArg Line.number same
  have := List.mem_zipIdx (List.mem_filter.1 member).1
  omega

theorem sourceLines_commented (blank : ∀ c ∈ gap.toList, isBlank c = true) (tabWidth : Nat)
    (before after : List String) (raw note : String) (cursor cursor' : Nat) :
    Program.sourceLines tabWidth ⟨before ++ commented raw gap note :: after, cursor⟩ =
      (Program.sourceLines tabWidth ⟨before ++ raw :: after, cursor'⟩).map
        (Line.replaced (Line.ofRaw tabWidth (raw, before.length + 1))
          (Line.ofRaw tabWidth (commented raw gap note, before.length + 1))) := by
  have here : 1 + before.length = before.length + 1 := Nat.add_comm 1 before.length
  have number : (Line.ofRaw tabWidth (raw, before.length + 1)).number = before.length + 1 := rfl
  have earlier := @map_replaced (Line.ofRaw tabWidth (raw, before.length + 1))
    (Line.ofRaw tabWidth (commented raw gap note, before.length + 1)) before 1
    (.inr (by omega)) tabWidth
  have later := @map_replaced (Line.ofRaw tabWidth (raw, before.length + 1))
    (Line.ofRaw tabWidth (commented raw gap note, before.length + 1)) after (before.length + 1 + 1)
    (.inl (by omega)) tabWidth
  rw [sourceLines_eq, sourceLines_eq]
  simp only [List.zipIdx_append, List.zipIdx_cons, here, List.filter_append, List.filter_cons,
    isVisible_commented blank, List.map_append, List.map_map, earlier]
  cases isVisible raw with
  | false => simp [later]
  | true => simp [later, Line.replaced]

end Comment

/-- A comment never cuts an expression. Where the text before an expression holds neither quotes nor
`#`, all up to the end of the expression is kept. So blanks and a comment behind a line that ends
with an expression, whatever its texts hold, leave the program as it is. -/
theorem comments_keep_expressions :
    (∀ (start e note : List Char) (ts : List Token), (∀ c ∈ start, c ∉ ['"', '\'', '#']) →
      Token.scan e = .ok ts → stripComment (start ++ e ++ '#' :: note) = start ++ e) ∧
    ∀ (tabWidth : Nat) (before after : List String) (raw gap note : String) (e : List Char)
      (ts : List Token) (cursor cursor' : Nat),
      (Line.ofRaw tabWidth (raw, before.length + 1)).Holds e → Token.scan e = .ok ts →
      (∀ c ∈ gap.toList, isBlank c = true) →
      Program.ofSource tabWidth ⟨before ++ (raw ++ gap ++ "#" ++ note) :: after, cursor⟩ =
        Program.ofSource tabWidth ⟨before ++ raw :: after, cursor'⟩ := by
  constructor
  · intro start e note ts plain scanned
    exact ((passes_plain plain).append (lexed_of_scan scanned).passes).stripComment_hash note
  · intro tabWidth before after raw gap note e ts cursor cursor' holds scanned blank
    obtain ⟨indent, kind⟩ := ofRaw_commented holds scanned blank note
    have recasts := recasts_replaced (by rfl) indent kind
    change Program.ofSource tabWidth ⟨before ++ commented raw gap note :: after, cursor⟩ = _
    rw [Program.ofSource, Program.ofSource, Program.ofLines, Program.ofLines,
      sourceLines_commented blank tabWidth before after raw note cursor cursor',
      Block.parse_recasts recasts strictMono_id, Stmt.renumberAll_id]

/-- Texts with a `#` and with the other quote in them, and a comment with quotes of its own. -/
theorem comments_keep_expressions_quoted :
    (∀ c ∈ "    print ".toList, c ∉ ['"', '\'', '#']) ∧
    Token.scan "'#\"' + \"it's #1\"".toList =
      .ok [.text "#\"", .symbol .plus, .text "it's #1"] ∧
    stripComment ("    print ".toList ++ "'#\"' + \"it's #1\"".toList ++ '#' :: "don't".toList) =
      "    print ".toList ++ "'#\"' + \"it's #1\"".toList ∧
    (Line.ofRaw 4 ("    print '#\"' + \"it's #1\"", 2)).Holds " '#\"' + \"it's #1\"".toList ∧
    Program.ofSource 4 ⟨["if a", "    print '#\"' + \"it's #1\"" ++ " " ++ "#" ++ "don't"], 0⟩ =
      Program.ofSource 4 ⟨["if a", "    print '#\"' + \"it's #1\""], 0⟩ := by
  have plain : ∀ c ∈ "    print ".toList, c ∉ ['"', '\'', '#'] := by simp
  have lexed : Lexed "'#\"' + \"it's #1\"".toList
      [.text "#\"", .symbol .plus, .text "it's #1"] := by
    have last : Lexeme [] ('"' :: ("it's #1".toList ++ ['"'])) (.text "it's #1") :=
      .text (.inl rfl) (by simp)
    have plus : Lexeme " \"it's #1\"".toList Symbol.plus.text.toList (.symbol .plus) :=
      .symbol (by decide) (by decide) (by simp [operators, Symbol.text])
    have first : Lexeme " + \"it's #1\"".toList ('\'' :: ("#\"".toList ++ ['\''])) (.text "#\"") :=
      .text (.inr rfl) (by simp)
    exact @Lexed.lexeme [] _ _ _ _ (by simp) first <|
      @Lexed.lexeme [' '] _ _ _ _ (by simp [isBlank]) plus <|
      @Lexed.lexeme [' '] _ _ _ _ (by simp [isBlank]) last (.blanks (by simp))
  have scanned := scan_of_lexed lexed
  have scanned' : Token.scan " '#\"' + \"it's #1\"".toList =
      .ok [.text "#\"", .symbol .plus, .text "it's #1"] := scan_of_lexed (lexed.cons (by decide))
  have holds : (Line.ofRaw 4 ("    print '#\"' + \"it's #1\"", 2)).Holds
      " '#\"' + \"it's #1\"".toList := by
    have rest : (Line.ofRaw 4 ("    print '#\"' + \"it's #1\"", 2)).rest =
        " '#\"' + \"it's #1\"".toList := by decide
    rw [← rest]
    exact .clause (by decide)
  obtain ⟨strips, keeps⟩ := comments_keep_expressions
  exact ⟨plain, scanned, strips _ _ _ _ plain scanned, holds,
    keeps 4 ["if a"] [] _ " " "don't" _ _ 0 0 holds scanned' (by simp [isBlank])⟩

end RobotScript
