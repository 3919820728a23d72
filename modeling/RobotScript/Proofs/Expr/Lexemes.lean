import Mathlib.Data.List.TakeWhile
import RobotScript.Expr.Lexer

/-!
# Lexemes

`Token.scan` cuts a text into lexemes, each as long as it can be, with blanks around them.
`scan_eq_ok_iff_lexed` says that it accepts exactly the texts that can be cut so, and gives the
tokens of the cut.
-/

namespace RobotScript

open Text (isBlank)
open Decimal (Numeral digitsValue readExponent?)

/-- `cs` is made of characters in `p`, and the text after it does not go on with one. -/
structure MaximalRun (p : Char → Bool) (cs rest : List Char) : Prop where
  all : ∀ c ∈ cs, p c = true
  ends : ∀ c ∈ rest.head?, p c = false

/-- A number starts with a digit, or with a point and a digit. -/
inductive StartsNumber : List Char → Prop
  | digit {c cs} (digit : c.isDigit = true) : StartsNumber (c :: cs)
  | point {c cs} (digit : c.isDigit = true) : StartsNumber ('.' :: c :: cs)

/-- The token that a run of digits and points spells: an integer of 64 bits if there is no point,
and the double nearest to the decimal if there is one. -/
inductive SpellsNumber : List Char → Token → Prop
  | int {cs : List Char} {i : Int64} (pointless : '.' ∉ cs) (value : i.toInt = digitsValue cs) :
    SpellsNumber cs (.int i)
  | float {whole part : List Char} (digits : ∀ c ∈ whole ++ part, c.isDigit = true)
    (nonempty : whole ++ part ≠ []) :
    SpellsNumber (whole ++ '.' :: part)
      (.float (Numeral.toFloat ⟨digitsValue (whole ++ part), -part.length⟩))

/-- The operators of scripts. A lone `=` is one of them, but no token of an expression. -/
def operators : List String :=
  ["**", "//", "<=", ">=", "==", "!=", "<", ">", "+", "-", "*", "/", "%", "(", ")", "="]

/-- `cs`, standing before `rest`, is a lexeme of a token. -/
inductive Lexeme (rest : List Char) : List Char → Token → Prop
  | number {cs t} (starts : StartsNumber cs) (run : MaximalRun isNumberChar cs rest)
    (spells : SpellsNumber cs t) : Lexeme rest cs t
  | name {c cs} (starts : isNameStart c = true) (run : MaximalRun isNameChar (c :: cs) rest) :
    Lexeme rest (c :: cs) (.name (String.ofList (c :: cs)))
  | sensor {cs} {s : Sensor} (run : MaximalRun isNameChar cs rest)
    (called : Text.sameWord s.label (String.ofList cs) = true) :
    Lexeme rest ('@' :: cs) (.sensor s)
  | text {quote cs} (quotes : quote = '"' ∨ quote = '\'') (inside : quote ∉ cs) :
    Lexeme rest (quote :: (cs ++ [quote])) (.text (String.ofList cs))
  | symbol {s : Symbol} (known : s.text ∈ operators) (notAssign : s.text ≠ "=")
    (longest : ∀ op ∈ operators, op.toList <+: s.text.toList ++ rest →
      op.length ≤ s.text.length) :
    Lexeme rest s.text.toList (.symbol s)

/-- The text is one lexeme to each token, in order, with any number of blanks before, between and
after them. -/
inductive Lexed : List Char → List Token → Prop
  | blanks {gap} (blank : ∀ c ∈ gap, isBlank c = true) : Lexed gap []
  | lexeme {gap cs rest t ts} (blank : ∀ c ∈ gap, isBlank c = true) (lexeme : Lexeme rest cs t)
    (more : Lexed rest ts) : Lexed (gap ++ (cs ++ rest)) (t :: ts)

/-! ### Runs of characters -/

section Run

variable {p : Char → Bool} {cs rest : List Char}

theorem maximalRun_takeWhile (p : Char → Bool) (cs : List Char) :
    MaximalRun p (cs.takeWhile p) (cs.dropWhile p) where
  all _ member := List.mem_takeWhile_imp member
  ends c first := by
    have stops := List.head?_dropWhile_not p cs
    rw [Option.mem_def.1 first] at stops
    exact stops

theorem MaximalRun.dropWhile_eq (run : MaximalRun p cs rest) : (cs ++ rest).dropWhile p = rest := by
  rw [List.dropWhile_append_of_pos run.all]
  cases rest with
  | nil => rfl
  | cons c rest => simp [run.ends c (by simp)]

theorem MaximalRun.takeWhile_eq (run : MaximalRun p cs rest) : (cs ++ rest).takeWhile p = cs := by
  have whole := List.takeWhile_append_dropWhile (p := p) (l := cs ++ rest)
  rw [run.dropWhile_eq] at whole
  exact List.append_cancel_right whole

theorem MaximalRun.tail {c : Char} (run : MaximalRun p (c :: cs) rest) : MaximalRun p cs rest :=
  ⟨fun d member => run.all d (List.mem_cons_of_mem c member), run.ends⟩

theorem MaximalRun.cons {c : Char} (first : p c = true) (run : MaximalRun p cs rest) :
    MaximalRun p (c :: cs) rest :=
  ⟨List.forall_mem_cons.2 ⟨first, run.all⟩, run.ends⟩

end Run

/-! ### Classes of characters -/

section Class

variable {c : Char}

theorem isBlank_eq_false (low : 0x21 ≤ c.toNat) (high : c.toNat ≤ 0x7E) : isBlank c = false := by
  simp only [isBlank, Bool.or_eq_false_iff, Bool.and_eq_false_iff, decide_eq_false_iff_not,
    beq_eq_false_iff_ne]
  omega

theorem toNat_of_isDigit (digit : c.isDigit = true) : 0x30 ≤ c.toNat ∧ c.toNat ≤ 0x39 := by
  simpa [Char.isDigit, UInt32.le_iff_toNat_le] using digit

theorem toNat_of_isAlpha (letter : c.isAlpha = true) :
    0x41 ≤ c.toNat ∧ c.toNat ≤ 0x5A ∨ 0x61 ≤ c.toNat ∧ c.toNat ≤ 0x7A := by
  unfold Char.isAlpha Char.isUpper Char.isLower at letter
  simpa [UInt32.le_iff_toNat_le] using letter

theorem isDigit_isNumberChar (digit : c.isDigit = true) : isNumberChar c = true := by
  simp [isNumberChar, digit]

theorem isDigit_eq_false (starts : isNameStart c = true) : c.isDigit = false := by
  rw [Bool.eq_false_iff]
  intro digit
  have range := toNat_of_isDigit digit
  simp only [isNameStart, Bool.or_eq_true, beq_iff_eq] at starts
  rcases starts with letter | rfl
  · have := toNat_of_isAlpha letter
    omega
  · cases digit

theorem isBlank_of_isDigit (digit : c.isDigit = true) : isBlank c = false := by
  have range := toNat_of_isDigit digit
  exact isBlank_eq_false (by omega) (by omega)

theorem isBlank_of_isNameStart (starts : isNameStart c = true) : isBlank c = false := by
  simp only [isNameStart, Bool.or_eq_true, beq_iff_eq] at starts
  rcases starts with letter | rfl
  · have range := toNat_of_isAlpha letter
    exact isBlank_eq_false (by omega) (by omega)
  · decide

theorem isNameStart_isNameChar (starts : isNameStart c = true) : isNameChar c = true := by
  simp only [isNameStart, isNameChar, Char.isAlphanum, Bool.or_eq_true] at starts ⊢
  grind

end Class

/-! ### Numbers -/

section Number

variable {cs whole part rest : List Char}

/-- A numeral with a point, up to what follows its digits. -/
theorem read?_point (before : ∀ c ∈ whole, c.isDigit = true)
    (after : MaximalRun Char.isDigit part rest) :
    Numeral.read? (whole ++ '.' :: (part ++ rest)) =
      if whole ++ part = [] then none
      else (readExponent? rest).map fun x => ⟨digitsValue (whole ++ part), x - part.length⟩ := by
  have point : MaximalRun Char.isDigit whole ('.' :: (part ++ rest)) := ⟨before, by simp⟩
  simp only [Numeral.read?, point.takeWhile_eq, point.dropWhile_eq, after.takeWhile_eq,
    after.dropWhile_eq]
  cases whole <;> cases part <;> simp

theorem exists_point (all : ∀ c ∈ cs, isNumberChar c = true) (point : '.' ∈ cs) :
    ∃ whole part rest, cs = whole ++ '.' :: (part ++ rest) ∧ (∀ c ∈ whole, c.isDigit = true) ∧
      MaximalRun Char.isDigit part rest := by
  have parts := List.takeWhile_append_dropWhile (p := Char.isDigit) (l := cs)
  have before := maximalRun_takeWhile Char.isDigit cs
  cases later : cs.dropWhile Char.isDigit with
  | nil =>
    rw [later, List.append_nil] at parts
    rw [← parts] at point
    cases before.all '.' point
  | cons c tail =>
    have member : c ∈ cs := (List.dropWhile_sublist Char.isDigit).subset (by simp [later])
    have stops : c.isDigit = false := before.ends c (by simp [later])
    have dot : c = '.' := by simpa [isNumberChar, stops] using all c member
    refine ⟨cs.takeWhile Char.isDigit, tail.takeWhile Char.isDigit, tail.dropWhile Char.isDigit,
      ?_, before.all, maximalRun_takeWhile Char.isDigit tail⟩
    rw [List.takeWhile_append_dropWhile, ← dot, ← later, parts]

theorem readExponent?_of_number (all : ∀ c ∈ rest, isNumberChar c = true) :
    readExponent? rest = if rest = [] then some 0 else none := by
  cases rest with
  | nil => rfl
  | cons c rest =>
    have number := all c List.mem_cons_self
    have noMark : (c == 'e' || c == 'E') = false := by
      rw [Bool.eq_false_iff]
      intro mark
      simp only [Bool.or_eq_true, beq_iff_eq] at mark
      rcases mark with rfl | rfl <;> cases number
    simp [readExponent?, noMark]

theorem read?_eq_some_iff (all : ∀ c ∈ cs, isNumberChar c = true) (point : '.' ∈ cs)
    {n : Numeral} :
    Numeral.read? cs = some n ↔ ∃ whole part, cs = whole ++ '.' :: part ∧
      (∀ c ∈ whole ++ part, c.isDigit = true) ∧ whole ++ part ≠ [] ∧
      n = ⟨digitsValue (whole ++ part), -part.length⟩ := by
  constructor
  · intro read
    obtain ⟨whole, part, rest, rfl, before, after⟩ := exists_point all point
    have number : ∀ c ∈ rest, isNumberChar c = true := fun c member => all c (by simp [member])
    rw [read?_point before after, readExponent?_of_number number] at read
    by_cases none : whole ++ part = []
    · simp [none] at read
    · by_cases last : rest = []
      · subst last
        simp only [if_neg none, if_true, Option.map_some, Option.some.injEq, Int.zero_sub] at read
        exact ⟨whole, part, by simp, List.forall_mem_append.2 ⟨before, after.all⟩, none, read.symm⟩
      · simp [none, last] at read
  · rintro ⟨whole, part, rfl, digits, nonempty, rfl⟩
    obtain ⟨before, after⟩ := List.forall_mem_append.1 digits
    have read := @read?_point whole part [] before ⟨after, by simp⟩
    rw [List.append_nil, if_neg nonempty] at read
    simpa [readExponent?] using read

theorem ofNumber_eq_ok_iff (all : ∀ c ∈ cs, isNumberChar c = true) {t : Token} :
    Token.ofNumber cs = .ok t ↔ SpellsNumber cs t := by
  unfold Token.ofNumber
  by_cases point : '.' ∈ cs
  · rw [if_pos (by simpa using point)]
    constructor
    · intro read
      split at read
      · rename_i n found
        cases read
        obtain ⟨whole, part, rfl, digits, nonempty, rfl⟩ := (read?_eq_some_iff all point).1 found
        exact .float digits nonempty
      · cases read
    · intro spells
      cases spells with
      | int pointless => exact absurd point pointless
      | @float whole part digits nonempty =>
        rw [(read?_eq_some_iff all point).2 ⟨whole, part, rfl, digits, nonempty, rfl⟩]
  · rw [if_neg (by simpa using point)]
    dsimp only
    rw [Int64.toInt_maxValue]
    constructor
    · intro read
      split at read
      · rename_i fits
        cases read
        exact .int point (Int64.toInt_ofNat_of_lt (by omega))
      · cases read
    · intro spells
      cases spells with
      | @int _ i _ value =>
        have high := i.toInt_lt
        have same : Int64.ofNat (digitsValue cs) = i := by
          rw [← Int64.toInt_inj, Int64.toInt_ofNat_of_lt (by omega), value]
        rw [if_pos (by omega), same]
      | float => simp at point

end Number

/-! ### Sensors and symbols -/

theorem Sensor.mem_all (s : Sensor) : s ∈ Sensor.all := by
  cases s <;> decide

theorem Sensor.label_injective : ∀ s ∈ Sensor.all, ∀ s' ∈ Sensor.all,
    s.label.toList.map Char.toLower = s'.label.toList.map Char.toLower → s = s' := by
  decide

theorem Sensor.find?_eq_some_iff {word : String} {s : Sensor} :
    Sensor.find? word = some s ↔ Text.sameWord s.label word = true := by
  have called {s : Sensor} (found : Sensor.find? word = some s) :
      Text.sameWord s.label word = true :=
    List.find?_some (p := fun s : Sensor => Text.sameWord s.label word) found
  constructor
  · exact called
  · intro same
    cases found : Sensor.find? word with
    | none => exact absurd same (List.find?_eq_none.1 found s s.mem_all)
    | some s' =>
      have same' := called found
      simp only [Text.sameWord, beq_iff_eq] at same same'
      rw [label_injective s' s'.mem_all s s.mem_all (same'.trans same.symm)]

namespace Symbol

variable {c : Char} {rest later : List Char} {s s' : Symbol}

/-- The symbols of two characters. -/
def pairs : List Symbol := [power, floorDiv, le, ge, eq, ne]

theorem text_mem (s : Symbol) : s.text ∈ operators := by
  cases s <;> decide

theorem text_ne_assign (s : Symbol) : s.text ≠ "=" := by
  cases s <;> decide

theorem text_solid (s : Symbol) : ∀ c ∈ s.text.toList, c.isDigit = false ∧
    isNameStart c = false ∧ isBlank c = false ∧ c ∉ ['.', '@', '"', '\'', '#'] := by
  have solid : s.text.toList.all (fun c => !c.isDigit && !isNameStart c && !isBlank c &&
      !(['.', '@', '"', '\'', '#'].contains c)) = true := by
    cases s <;> decide
  simpa [and_assoc] using solid

theorem text_length (s : Symbol) : 1 ≤ s.text.length := by
  cases s <;> decide

theorem operators_length : ∀ op ∈ operators, op.length ≤ 1 ∨ ∃ s ∈ pairs, s.text = op := by
  decide

theorem at?_text (s : Symbol) :
    ∃ c rest, s.text.toList = c :: rest ∧ Symbol.at? c rest.head? = some s := by
  cases s <;> exact ⟨_, _, rfl, rfl⟩

theorem text_injective (same : s.text = s'.text) : s = s' := by
  obtain ⟨c, rest, text, found⟩ := at?_text s
  obtain ⟨c', rest', text', found'⟩ := at?_text s'
  rw [same, text'] at text
  cases text
  exact Option.some.inj (found.symm.trans found')

theorem at?_eq_some (found : Symbol.at? c rest.head? = some s) :
    c :: rest = s.text.toList ++ rest.drop (s.text.length - 1) := by
  unfold Symbol.at? at found
  cases rest <;> split at found <;> cases found <;> simp_all [text, ← String.length_toList]

/-- The symbols of two characters are tried first. -/
theorem at?_pair (pair : s ∈ pairs) (start : c :: rest = s.text.toList ++ later) :
    Symbol.at? c rest.head? = some s := by
  cases s <;> simp [text, pairs] at pair start <;> obtain ⟨rfl, rfl⟩ := start <;> rfl

theorem at?_longest (found : Symbol.at? c rest.head? = some s) :
    ∀ op ∈ operators, op.toList <+: c :: rest → op.length ≤ s.text.length := by
  rintro op known ⟨later, start⟩
  rcases operators_length op known with short | ⟨s', pair, rfl⟩
  · exact short.trans s.text_length
  · rw [at?_pair pair start.symm] at found
    cases found
    exact le_rfl

theorem at?_ne_none (start : c :: rest = s.text.toList ++ later) :
    Symbol.at? c rest.head? ≠ none := by
  have first : c ∈ ['*', '/', '<', '>', '+', '-', '%', '(', ')'] ∨ s ∈ pairs := by
    cases s <;> simp [text] at start <;> simp [start, pairs]
  rcases first with single | pair
  · intro nothing
    unfold Symbol.at? at nothing
    split at nothing <;> simp_all
  · simp [at?_pair pair start]

theorem at?_of_longest (start : c :: rest = s.text.toList ++ later)
    (longest : ∀ op ∈ operators, op.toList <+: c :: rest → op.length ≤ s.text.length) :
    Symbol.at? c rest.head? = some s := by
  obtain ⟨s', found⟩ := Option.ne_none_iff_exists'.1 (at?_ne_none start)
  have here : s.text.toList <+: c :: rest := ⟨later, start.symm⟩
  have here' : s'.text.toList <+: c :: rest := ⟨_, (at?_eq_some found).symm⟩
  have length : s'.text.toList.length = s.text.toList.length := by
    have := longest s'.text s'.text_mem here'
    have := at?_longest found s.text s.text_mem here
    simp only [String.length_toList]
    omega
  have same := (List.prefix_of_prefix_length_le here' here length.le).eq_of_length length
  rw [found, text_injective (String.toList_injective same)]

end Symbol

/-! ### One lexeme -/

section Next

variable {c : Char} {cs rest r : List Char} {t : Token}

theorem startsNumber_iff (run : MaximalRun isNumberChar cs rest) :
    (c.isDigit || (c == '.' && (cs ++ rest).head?.any Char.isDigit)) = true ↔
      StartsNumber (c :: cs) := by
  constructor
  · intro starts
    simp only [Bool.or_eq_true, Bool.and_eq_true, beq_iff_eq] at starts
    rcases starts with digit | ⟨rfl, next⟩
    · exact .digit digit
    · obtain ⟨d, first, digit⟩ := (Option.any_eq_true _ _).1 next
      cases cs with
      | nil =>
        have stops := run.ends d first
        rw [isDigit_isNumberChar digit] at stops
        cases stops
      | cons d' cs =>
        cases first
        exact .point digit
  · intro starts
    cases starts with
    | digit digit => simp [digit]
    | point digit => simp [digit]

theorem StartsNumber.isNumberChar (starts : StartsNumber (c :: cs)) : isNumberChar c = true := by
  cases starts with
  | digit digit => exact isDigit_isNumberChar digit
  | point => decide

theorem dropWhile_quote {quote : Char} (inside : quote ∉ cs) :
    (cs ++ quote :: r).dropWhile (· != quote) = quote :: r ∧
      (cs ++ quote :: r).takeWhile (· != quote) = cs := by
  have run : MaximalRun (· != quote) cs (quote :: r) := by
    refine ⟨fun c member => ?_, by simp⟩
    rw [bne_iff_ne]
    rintro rfl
    exact inside member
  exact ⟨run.dropWhile_eq, run.takeWhile_eq⟩

theorem lexeme_of_next {h : r.length ≤ rest.length} (taken : Token.next c rest = .ok (t, ⟨r, h⟩)) :
    ∃ cs, c :: rest = cs ++ r ∧ Lexeme r cs t := by
  unfold Token.next at taken
  -- the branches in the order in which they are tried
  split at taken
  · rename_i starts
    have run := maximalRun_takeWhile isNumberChar rest
    rw [← List.takeWhile_append_dropWhile (p := isNumberChar) (l := rest), startsNumber_iff run]
      at starts
    have run := run.cons starts.isNumberChar
    cases read : Token.ofNumber (c :: rest.takeWhile isNumberChar) with
    | error fault => simp [read, Except.map] at taken
    | ok number =>
      rw [read] at taken
      cases taken
      exact ⟨_, by simp, .number starts run ((ofNumber_eq_ok_iff run.all).1 read)⟩
  split at taken
  · rename_i quotes
    split at taken
    · cases taken
    · rename_i q later ends
      cases taken
      have run := maximalRun_takeWhile (· != c) rest
      have last : q = c := by simpa [ends] using run.ends q
      have inside : c ∉ rest.takeWhile (· != c) := fun member => by simpa using run.all c member
      refine ⟨c :: (rest.takeWhile (· != c) ++ [c]), ?_, .text (by simpa using quotes) inside⟩
      have parts := List.takeWhile_append_dropWhile (p := (· != c)) (l := rest)
      rw [ends, last] at parts
      simpa using parts.symm
  split at taken
  · rename_i quotes mark
    rw [beq_iff_eq] at mark
    subst mark
    dsimp only at taken
    split at taken
    · rename_i s found
      cases taken
      exact ⟨'@' :: rest.takeWhile isNameChar, by simp,
        .sensor (maximalRun_takeWhile isNameChar rest) (Sensor.find?_eq_some_iff.1 found)⟩
    · cases taken
  split at taken
  · rename_i starts
    cases taken
    exact ⟨c :: rest.takeWhile isNameChar, by simp,
      .name starts ((maximalRun_takeWhile isNameChar rest).cons (isNameStart_isNameChar starts))⟩
  · split at taken
    · rename_i s found
      cases taken
      have start := Symbol.at?_eq_some found
      have longest := Symbol.at?_longest found
      rw [start] at longest
      exact ⟨s.text.toList, start, .symbol s.text_mem s.text_ne_assign longest⟩
    · cases taken

theorem next_number (starts : StartsNumber (c :: cs)) (run : MaximalRun isNumberChar (c :: cs) r)
    (spells : SpellsNumber (c :: cs) t) : ∃ h, Token.next c (cs ++ r) = .ok (t, ⟨r, h⟩) := by
  refine ⟨by simp, ?_⟩
  rw [Token.next, if_pos ((startsNumber_iff run.tail).2 starts), run.tail.takeWhile_eq,
    (ofNumber_eq_ok_iff run.all).2 spells]
  simp [Except.map, Token.Remaining.skip, run.tail.dropWhile_eq]

theorem next_text (quotes : c = '"' ∨ c = '\'') (inside : c ∉ cs) :
    ∃ h, Token.next c (cs ++ c :: r) = .ok (.text (String.ofList cs), ⟨r, h⟩) := by
  refine ⟨by simp; omega, ?_⟩
  have digit : c.isDigit = false := by rcases quotes with rfl | rfl <;> rfl
  have point : (c == '.') = false := by rcases quotes with rfl | rfl <;> rfl
  obtain ⟨ends, body⟩ := dropWhile_quote (r := r) inside
  rw [Token.next, if_neg (by simp [digit, point]), if_pos (by simpa using quotes)]
  split
  · rename_i never
    rw [ends] at never
    cases never
  · rename_i later ends'
    rw [ends] at ends'
    cases ends'
    rw [body]

theorem next_sensor {s : Sensor} (run : MaximalRun isNameChar cs r)
    (called : Text.sameWord s.label (String.ofList cs) = true) :
    ∃ h, Token.next '@' (cs ++ r) = .ok (.sensor s, ⟨r, h⟩) := by
  refine ⟨by simp, ?_⟩
  simp [Token.next, run.takeWhile_eq, Sensor.find?_eq_some_iff.2 called, Token.Remaining.skip,
    run.dropWhile_eq]

theorem next_name (starts : isNameStart c = true) (run : MaximalRun isNameChar (c :: cs) r) :
    ∃ h, Token.next c (cs ++ r) = .ok (.name (String.ofList (c :: cs)), ⟨r, h⟩) := by
  refine ⟨by simp, ?_⟩
  have other : ∀ d, isNameStart d = false → (c == d) = false := by
    intro d no
    rw [beq_eq_false_iff_ne]
    rintro rfl
    rw [starts] at no
    cases no
  simp [Token.next, isDigit_eq_false starts, other '.' rfl, other '"' rfl, other '\'' rfl,
    other '@' rfl, starts, run.tail.takeWhile_eq, Token.Remaining.skip, run.tail.dropWhile_eq]

theorem next_symbol {s : Symbol} (start : c :: rest = s.text.toList ++ r)
    (longest : ∀ op ∈ operators, op.toList <+: c :: rest → op.length ≤ s.text.length) :
    ∃ h, Token.next c rest = .ok (.symbol s, ⟨r, h⟩) := by
  have found := Symbol.at?_of_longest start longest
  have later : rest.drop (s.text.length - 1) = r := by
    have start' := Symbol.at?_eq_some found
    rw [start] at start'
    exact (List.append_cancel_left start').symm
  have first : c ∈ s.text.toList := by
    obtain ⟨c', cs, text, -⟩ := s.at?_text
    rw [text] at start ⊢
    cases start
    exact List.mem_cons_self
  obtain ⟨digit, name, -, other⟩ := s.text_solid c first
  simp only [List.mem_cons, List.not_mem_nil, or_false, not_or] at other
  refine ⟨by rw [← later]; simp, ?_⟩
  simp [Token.next, digit, name, other, found, later]

theorem next_of_lexeme (lexeme : Lexeme r cs t) (start : c :: rest = cs ++ r) :
    ∃ h, Token.next c rest = .ok (t, ⟨r, h⟩) := by
  cases lexeme with
  | @number cs t starts run spells =>
    obtain _ | ⟨c', cs⟩ := cs
    · cases starts
    · rw [List.cons_append, List.cons.injEq] at start
      obtain ⟨rfl, rfl⟩ := start
      exact next_number starts run spells
  | name starts run =>
    rw [List.cons_append, List.cons.injEq] at start
    obtain ⟨rfl, rfl⟩ := start
    exact next_name starts run
  | sensor run called =>
    rw [List.cons_append, List.cons.injEq] at start
    obtain ⟨rfl, rfl⟩ := start
    exact next_sensor run called
  | text quotes inside =>
    rw [List.cons_append, List.cons.injEq, ← List.append_cons] at start
    obtain ⟨rfl, rfl⟩ := start
    exact next_text quotes inside
  | symbol _ _ longest =>
    rw [← start] at longest
    exact next_symbol start longest

end Next

/-! ### Whole texts -/

section Scan

variable {c : Char} {cs gap rest : List Char} {t : Token} {ts : List Token}

theorem Lexeme.exists_cons (lexeme : Lexeme rest cs t) :
    ∃ c cs', cs = c :: cs' ∧ isBlank c = false := by
  cases lexeme with
  | number starts =>
    cases starts with
    | digit digit => exact ⟨_, _, rfl, isBlank_of_isDigit digit⟩
    | point => exact ⟨_, _, rfl, by decide⟩
  | name starts => exact ⟨_, _, rfl, isBlank_of_isNameStart starts⟩
  | sensor => exact ⟨_, _, rfl, by decide⟩
  | text quotes => exact ⟨_, _, rfl, by rcases quotes with rfl | rfl <;> decide⟩
  | @symbol s =>
    obtain ⟨c, cs, text, -⟩ := s.at?_text
    obtain ⟨-, -, solid, -⟩ := s.text_solid c (by simp [text])
    exact ⟨c, cs, text, solid⟩

theorem scan_nil : Token.scan [] = .ok [] :=
  Token.scan.eq_def []

theorem scan_cons (c : Char) (rest : List Char) :
    Token.scan (c :: rest) =
      if isBlank c then Token.scan rest
      else match Token.next c rest with
        | .error e => .error e
        | .ok (t, ⟨r, _⟩) => (Token.scan r).map (t :: ·) :=
  Token.scan.eq_def (c :: rest)

theorem scan_blanks (blank : ∀ c ∈ gap, isBlank c = true) (rest : List Char) :
    Token.scan (gap ++ rest) = Token.scan rest := by
  induction gap with
  | nil => rfl
  | cons c gap ih =>
    obtain ⟨first, blank⟩ := List.forall_mem_cons.1 blank
    rw [List.cons_append, scan_cons, if_pos first, ih blank]

theorem Lexed.cons (blank : isBlank c = true) (lexed : Lexed cs ts) : Lexed (c :: cs) ts := by
  cases lexed with
  | blanks all => exact .blanks (List.forall_mem_cons.2 ⟨blank, all⟩)
  | lexeme all lexeme more =>
    rw [← List.cons_append]
    exact .lexeme (List.forall_mem_cons.2 ⟨blank, all⟩) lexeme more

theorem lexed_of_scan (scanned : Token.scan cs = .ok ts) : Lexed cs ts := by
  fun_induction Token.scan cs generalizing ts with
  | case1 =>
    cases scanned
    exact .blanks (by simp)
  | case2 c rest blank ih => exact (ih scanned).cons blank
  | case3 => cases scanned
  | case4 c rest solid t r h taken ih =>
    cases more : Token.scan r with
    | error fault => simp [more, Except.map] at scanned
    | ok ts' =>
      rw [more] at scanned
      cases scanned
      obtain ⟨cs, start, lexeme⟩ := lexeme_of_next taken
      rw [start]
      exact @Lexed.lexeme [] _ _ _ _ (by simp) lexeme (ih more)

theorem scan_of_lexed (lexed : Lexed cs ts) : Token.scan cs = .ok ts := by
  induction lexed with
  | @blanks gap blank =>
    have skipped := scan_blanks blank []
    rwa [List.append_nil, scan_nil] at skipped
  | @lexeme gap cs rest t ts blank lexeme _ ih =>
    obtain ⟨c, cs, rfl, solid⟩ := lexeme.exists_cons
    obtain ⟨h, taken⟩ := next_of_lexeme lexeme (List.cons_append).symm
    rw [scan_blanks blank, List.cons_append, scan_cons, if_neg (by simp [solid]), taken]
    simp [ih, Except.map]

end Scan

/-- A text is accepted exactly if it can be cut into blanks and lexemes, each of these as long as it
can be, and the tokens are theirs in order: nothing of the text is skipped, merged or split. -/
theorem scan_eq_ok_iff_lexed (cs : List Char) (ts : List Token) :
    Token.scan cs = .ok ts ↔ Lexed cs ts :=
  ⟨lexed_of_scan, scan_of_lexed⟩

end RobotScript
