import RobotScript.Proofs.Expr.Lexemes
import RobotScript.Proofs.Number.Whole

/-!
# Numerals of whole numbers

The decimal numeral of a whole number of at most 24 bits is read as exactly that number.
-/

namespace RobotScript.Decimal

open Binary (Whole)

variable {c : Char} {cs : List Char}

theorem digitsValue_toDigits (n : Nat) : digitsValue (Nat.toDigits 10 n) = n :=
  Nat.ofDigitChars_ten_toDigits

theorem splitSign_of_isDigit (digit : c.isDigit = true) :
    splitSign (c :: cs) = (false, c :: cs) := by
  unfold splitSign
  split
  · rename_i same
    cases same
    cases digit
  · rename_i same
    cases same
    cases digit
  · rfl

theorem Numeral.read?_of_digits (all : ∀ d ∈ c :: cs, d.isDigit = true) :
    Numeral.read? (c :: cs) = some ⟨digitsValue (c :: cs), 0⟩ := by
  have whole : (c :: cs).takeWhile Char.isDigit = c :: cs := List.takeWhile_eq_self_iff.2 all
  have rest : (c :: cs).dropWhile Char.isDigit = [] := List.dropWhile_eq_nil_iff.2 all
  simp [Numeral.read?, whole, rest, readExponent?]

/-- No word for a number starts with a digit. -/
theorem ofList_ne_of_digit {word : String} (digit : c.isDigit = true)
    (first : word.toList.head?.any Char.isDigit = false) :
    (String.ofList ((c :: cs).map Char.toLower) == word) = false := by
  have kept : c.toLower = c := by
    have small : ¬(c.val ≥ 65 ∧ c.val ≤ 90) := by
      rintro ⟨large, -⟩
      have least : 65 ≤ c.toNat := UInt32.le_iff_toNat_le.1 large
      have most := (toNat_of_isDigit digit).2
      omega
    exact dif_neg small
  rw [beq_eq_false_iff_ne]
  rintro rfl
  simp [kept, digit] at first

theorem Magnitude.read?_of_digits (all : ∀ d ∈ c :: cs, d.isDigit = true) :
    Magnitude.read? (c :: cs) = some (.numeral ⟨digitsValue (c :: cs), 0⟩) := by
  have digit := all c List.mem_cons_self
  unfold Magnitude.read?
  dsimp only
  rw [ofList_ne_of_digit digit (by decide), ofList_ne_of_digit digit (by decide),
    ofList_ne_of_digit digit (by decide), Numeral.read?_of_digits all]
  rfl

theorem toDigits_eq_cons (n : Nat) : ∃ c cs, Nat.toDigits 10 n = c :: cs ∧
    ∀ d ∈ c :: cs, d.isDigit = true := by
  obtain ⟨c, cs, same⟩ := List.exists_cons_of_ne_nil (Nat.toDigits_ne_nil (n := n) (b := 10))
  refine ⟨c, cs, same, fun d member => ?_⟩
  exact Nat.isDigit_of_mem_toDigits (by decide) (by decide) (same ▸ member)

theorem toList_toString (n : Int) :
    (toString n).toList = (if 0 ≤ n then [] else ['-']) ++ Nat.toDigits 10 n.natAbs := by
  rw [Int.toString_eq_repr, Int.repr_eq_if]
  by_cases nonneg : 0 ≤ n
  · rw [if_pos nonneg, if_pos nonneg, Nat.toList_repr, show n.toNat = n.natAbs by omega]
    rfl
  · rw [if_neg nonneg, if_neg nonneg, String.toList_append, Nat.toList_repr,
      show (-n).toNat = n.natAbs by omega]
    rfl

theorem toString_solid (n : Int) :
    (toString n).toList ≠ [] ∧ ∀ c ∈ (toString n).toList, Text.isBlank c = false := by
  obtain ⟨c, cs, same, digits⟩ := toDigits_eq_cons n.natAbs
  rw [toList_toString, same]
  refine ⟨by simp, fun d member => ?_⟩
  rcases List.mem_append.1 member with sign | digit
  · by_cases nonneg : 0 ≤ n
    · rw [if_pos nonneg] at sign
      cases sign
    · rw [if_neg nonneg, List.mem_singleton] at sign
      subst sign
      rfl
  · exact isBlank_of_isDigit (digits d digit)

/-- The text of a whole number is read as that number. -/
theorem exists_read32?_toString {n : Int} (small : n.natAbs ≤ 2 ^ 24) :
    ∃ x, read32? (toString n) = some x ∧ Whole x n := by
  obtain ⟨c, cs, same, digits⟩ := toDigits_eq_cons n.natAbs
  have read : Magnitude.read? (c :: cs) = some (.numeral ⟨n.natAbs, 0⟩) := by
    rw [Magnitude.read?_of_digits digits, ← same, digitsValue_toDigits]
  have size := Binary.whole_ofScientific small
  rw [read32?, toList_toString, same]
  by_cases nonneg : 0 ≤ n
  · rw [if_pos nonneg, List.nil_append, splitSign_of_isDigit (digits c List.mem_cons_self)]
    dsimp only
    rw [read]
    rw [Int.natAbs_of_nonneg nonneg] at size
    exact ⟨_, rfl, size⟩
  · have minus : splitSign (['-'] ++ c :: cs) = (true, c :: cs) := rfl
    rw [if_neg nonneg, minus]
    dsimp only
    rw [read]
    have opposite := size.neg
    rw [show -(n.natAbs : Int) = n by omega] at opposite
    exact ⟨_, rfl, opposite⟩

end RobotScript.Decimal
