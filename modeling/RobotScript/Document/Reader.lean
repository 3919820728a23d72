import RobotScript.Document.Basic

/-!
# Reading documents

`Document.parse?` reads a whole JSON text and nothing beyond it.
-/

namespace RobotScript.Document

def isSpace (c : Char) : Bool := c == ' ' || c == '\n' || c == '\r' || c == '\t'

def skipSpace (cs : List Char) : List Char := cs.dropWhile isSpace

theorem length_skipSpace_le (cs : List Char) : (skipSpace cs).length ≤ cs.length :=
  (List.dropWhile_sublist isSpace).length_le

/-! ### Texts -/

def hexValue? (c : Char) : Option Nat :=
  if c.isDigit then some (c.toNat - '0'.toNat)
  else if 'a' ≤ c ∧ c ≤ 'f' then some (c.toNat - 'a'.toNat + 10)
  else if 'A' ≤ c ∧ c ≤ 'F' then some (c.toNat - 'A'.toNat + 10)
  else none

def hexUnit? (a b c d : Char) : Option Nat := do
  pure (((← hexValue? a) * 16 + (← hexValue? b)) * 256 + (← hexValue? c) * 16 + (← hexValue? d))

/-- The code unit of a one-letter escape. -/
def escapeUnit? (c : Char) : Option Nat :=
  if c == '"' || c == '\\' || c == '/' then some c.toNat
  else if c == 'b' then some 8
  else if c == 'f' then some 12
  else if c == 'n' then some 10
  else if c == 'r' then some 13
  else if c == 't' then some 9
  else none

/-- The code units up to the closing quote, and the characters after it. -/
def readUnits? : List Char → Option (List Nat × List Char)
  | [] => none
  | '"' :: rest => some ([], rest)
  | '\\' :: 'u' :: a :: b :: c :: d :: rest =>
    (hexUnit? a b c d).bind fun u => (readUnits? rest).map fun (us, r) => (u :: us, r)
  | '\\' :: c :: rest =>
    (escapeUnit? c).bind fun u => (readUnits? rest).map fun (us, r) => (u :: us, r)
  | c :: rest =>
    if c.toNat < 0x20 || c == '\\' then none
    else (readUnits? rest).map fun (us, r) => (c.toNat :: us, r)

/-- Joins surrogate pairs; a lone surrogate is no character. -/
def joinUnits? : List Nat → Option (List Char)
  | [] => some []
  | u :: us =>
    if 0xD800 ≤ u ∧ u < 0xDC00 then
      match us with
      | v :: us =>
        if 0xDC00 ≤ v ∧ v < 0xE000 then
          (joinUnits? us).map (Char.ofNat (0x10000 + (u - 0xD800) * 0x400 + (v - 0xDC00)) :: ·)
        else none
      | [] => none
    else if 0xDC00 ≤ u ∧ u < 0xE000 then none
    else (joinUnits? us).map (Char.ofNat u :: ·)

theorem length_readUnits? {cs : List Char} {us : List Nat} {r : List Char}
    (h : readUnits? cs = some (us, r)) : r.length < cs.length := by
  fun_induction readUnits? cs generalizing us r with
  | case1 => simp at h
  | case2 rest => simp at h; simp [h.2]
  | case3 a b c d rest ih =>
    obtain ⟨_, _, h⟩ := Option.bind_eq_some_iff.1 h
    obtain ⟨⟨us', r'⟩, h', he⟩ := Option.map_eq_some_iff.1 h
    simp only [Prod.mk.injEq] at he
    have := ih h'
    simp [← he.2]; omega
  | case4 c rest _ ih =>
    obtain ⟨_, _, h⟩ := Option.bind_eq_some_iff.1 h
    obtain ⟨⟨us', r'⟩, h', he⟩ := Option.map_eq_some_iff.1 h
    simp only [Prod.mk.injEq] at he
    have := ih h'
    simp [← he.2]; omega
  | case5 c rest => simp at h
  | case6 c rest _ _ _ _ ih =>
    obtain ⟨⟨us', r'⟩, h', he⟩ := Option.map_eq_some_iff.1 h
    simp only [Prod.mk.injEq] at he
    have := ih h'
    simp [← he.2]; omega

abbrev Shorter (cs : List Char) := { r : List Char // r.length < cs.length }

/-- The text behind an opening quote, if its escapes spell one, and the characters after it. -/
def readText? (cs : List Char) : Option (Option String × Shorter cs) :=
  match h : readUnits? cs with
  | none => none
  | some (us, r) => some ((joinUnits? us).map String.ofList, ⟨r, length_readUnits? h⟩)

/-! ### Numbers -/

def isNumberPart (c : Char) : Bool :=
  c.isDigit || c == '.' || c == 'e' || c == 'E' || c == '+' || c == '-'

/-- A number without its sign: no zero in front of other digits, and digits on both sides of a
point. -/
def magnitude? (cs : List Char) : Option Decimal.Numeral :=
  let whole := cs.takeWhile Char.isDigit
  let rest := cs.dropWhile Char.isDigit
  let pointed := rest.head? == some '.'
  if whole.isEmpty || (whole.head? == some '0' && whole.length > 1) then none
  else if pointed && !(rest.tail.head?.any Char.isDigit) then none
  else Decimal.Numeral.read? cs

def number? (cs : List Char) : Option WrittenNumber :=
  let (negative, digits) := match cs with
    | '-' :: cs => (true, cs)
    | cs => (false, cs)
  (magnitude? digits).map fun m => ⟨negative, digits.all Char.isDigit, m⟩

/-! ### Values -/

/-- Takes the characters of `word`. -/
def literal? (word : List Char) (d : Document) (cs : List Char) : Option (Document × Shorter cs) :=
  if h : word.isPrefixOf cs ∧ word ≠ [] then
    some (d, ⟨cs.drop word.length, by
      have hp := List.isPrefixOf_iff_prefix.1 h.1
      have hl := hp.length_le
      have := List.length_pos_iff.2 h.2
      simp; omega⟩)
  else none

mutual

def value? (cs : List Char) : Option (Document × Shorter cs) :=
  match cs with
  | [] => none
  | c :: rest =>
    if isSpace c then (value? rest).map fun (d, ⟨r, h⟩) => (d, ⟨r, by simp; omega⟩)
    else if c == '"' then
      (readText? rest).map fun (t, ⟨r, h⟩) => (t.elim .garbled .text, ⟨r, by simp; omega⟩)
    else if c == '[' then
      match h : skipSpace rest with
      | ']' :: r =>
        some (.list [], ⟨r, by have := length_skipSpace_le rest; simp [h] at this ⊢; omega⟩)
      | _ => (items? rest).map fun (ds, ⟨r, h⟩) => (.list ds, ⟨r, by simp; omega⟩)
    else if c == '\x7b' then
      match h : skipSpace rest with
      | '\x7d' :: r =>
        some (.object [], ⟨r, by have := length_skipSpace_le rest; simp [h] at this ⊢; omega⟩)
      | _ => (members? rest).map fun (ms, ⟨r, h⟩) => (.object ms, ⟨r, by simp; omega⟩)
    else if c == 'n' then literal? "null".toList .null (c :: rest)
    else if c == 't' then literal? "true".toList (.bool true) (c :: rest)
    else if c == 'f' then literal? "false".toList (.bool false) (c :: rest)
    else
      (number? (c :: rest.takeWhile isNumberPart)).map fun n =>
        (.number n, ⟨rest.dropWhile isNumberPart, by
          have := (List.dropWhile_sublist (l := rest) isNumberPart).length_le
          simp; omega⟩)
termination_by (cs.length, 0)

/-- The items of a list up to its closing bracket. -/
def items? (cs : List Char) : Option (List Document × Shorter cs) :=
  match value? cs with
  | none => none
  | some (d, ⟨afterItem, _⟩) =>
    have hv := length_skipSpace_le afterItem
    match hd : skipSpace afterItem with
    | ']' :: rest => some ([d], ⟨rest, by simp [hd] at hv; omega⟩)
    | ',' :: rest =>
      have hr : rest.length < cs.length := by simp [hd] at hv; omega
      (items? rest).map fun (ds, ⟨r, _⟩) => (d :: ds, ⟨r, by omega⟩)
    | _ => none
termination_by (cs.length, 1)

/-- The members of an object up to its closing brace. -/
def members? (cs : List Char) : Option (List (Option String × Document) × Shorter cs) :=
  match hk : skipSpace cs with
  | '"' :: key =>
    match readText? key with
    | none => none
    | some (name, ⟨afterKey, _⟩) =>
      match hc : skipSpace afterKey with
      | ':' :: start =>
        have hs : start.length < cs.length := by
          have := length_skipSpace_le cs
          have := length_skipSpace_le afterKey
          simp [hk, hc] at *; omega
        match value? start with
        | none => none
        | some (d, ⟨afterValue, _⟩) =>
          have hv := length_skipSpace_le afterValue
          match hd : skipSpace afterValue with
          | '\x7d' :: rest => some ([(name, d)], ⟨rest, by simp [hd] at hv; omega⟩)
          | ',' :: rest =>
            have hr : rest.length < cs.length := by simp [hd] at hv; omega
            (members? rest).map fun (ms, ⟨r, _⟩) => ((name, d) :: ms, ⟨r, by omega⟩)
          | _ => none
      | _ => none
  | _ => none
termination_by (cs.length, 2)

end

/-- The document that `text` spells, with nothing but space around it. -/
def parse? (text : String) : Option Document :=
  match value? text.toList with
  | some (d, ⟨r, _⟩) => if r.all isSpace then some d else none
  | none => none

end RobotScript.Document
