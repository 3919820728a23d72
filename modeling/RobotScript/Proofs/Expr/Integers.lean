import Mathlib.Algebra.Order.Ring.Int
import RobotScript.Expr.Arithmetic

/-!
# Integer arithmetic

An operation on integers yields the exact result wherever it fits in 64 bits and an overflow
elsewhere. Division truncates and is then put right by one; `floorQuotient_toInt` and
`floorRemainder_toInt` show that this rounds down and that no step of it leaves 64 bits.
-/

namespace RobotScript

/-- The integers of 64 bits. -/
def Fits (n : Int) : Prop := -2 ^ 63 ≤ n ∧ n < 2 ^ 63

instance (n : Int) : Decidable (Fits n) := inferInstanceAs (Decidable (_ ∧ _))

/-- `r` is the integer `n` if that fits, and an overflow if not. -/
def Exactly (n : Int) (r : Except ExprError Value) : Prop :=
  (Fits n → ∃ i : Int64, i.toInt = n ∧ r = .ok (.int i)) ∧ (¬ Fits n → r = .error .overflow)

theorem fits_toInt (a : Int64) : Fits a.toInt := ⟨a.le_toInt, a.toInt_lt⟩

theorem toInt_of_bmod {n : Int} {i : Int64} (fits : Fits n) (wrapped : i.toInt = n.bmod (2 ^ 64)) :
    i.toInt = n := by
  have ⟨low, high⟩ := fits
  rw [wrapped]
  apply Int.bmod_eq_of_le <;> omega

theorem exactly_exact (n : Int) : Exactly n (exact n) := by
  unfold exact Exactly Fits
  rw [Int64.toInt_minValue, Int64.toInt_maxValue]
  constructor
  · intro ⟨low, high⟩
    rw [if_pos (by omega)]
    exact ⟨.ofInt n, Int64.toInt_ofInt_of_le low high, rfl⟩
  · intro unfit
    rw [if_neg (by omega)]

/-! ### Powers -/

theorem pow_parity {a : Int} (small : a.natAbs ≤ 1) {n : Nat} (many : 64 ≤ n) :
    a ^ n = a ^ (64 + n % 2) := by
  have : a = 0 ∨ a = 1 ∨ a = -1 := by omega
  rcases this with rfl | rfl | rfl
  · rw [zero_pow (by omega), zero_pow (by omega)]
  · simp
  · rcases Nat.mod_two_eq_zero_or_one n with even | odd
    · rw [even, Even.neg_one_pow (Nat.even_iff.2 even)]
      rfl
    · rw [odd, Odd.neg_one_pow (Nat.odd_iff.2 odd)]
      rfl

/-- A base beyond one in size outgrows 64 bits by its 64th power. -/
theorem not_fits_pow {a : Int} (large : 1 < a.natAbs) {n : Nat} (many : 64 ≤ n) :
    ¬ Fits (a ^ n) := by
  have grown : 2 ^ 64 ≤ (a ^ n).natAbs := by
    calc 2 ^ 64 ≤ a.natAbs ^ 64 := Nat.pow_le_pow_left large 64
      _ ≤ a.natAbs ^ n := Nat.pow_le_pow_right (by omega) many
      _ = (a ^ n).natAbs := (Int.natAbs_pow a n).symm
  rintro ⟨low, high⟩
  omega

theorem exactly_exactPower (a : Int) (n : Nat) : Exactly (a ^ n) (exactPower a n) := by
  unfold exactPower
  split
  · exact exactly_exact (a ^ n)
  · rename_i many
    split
    · rename_i small
      rw [pow_parity small (by omega)]
      exact exactly_exact (a ^ (64 + n % 2))
    · rename_i large
      have unfit : ¬ Fits (a ^ n) := not_fits_pow (by omega) (by omega)
      exact ⟨fun fits => absurd fits unfit, fun _ => rfl⟩

/-! ### From truncation to rounding down -/

theorem tmod_neg_iff {a b : Int} (uneven : a.tmod b ≠ 0) : a.tmod b < 0 ↔ a < 0 := by
  rcases Int.le_total 0 a with positive | negative
  · have := Int.tmod_nonneg b positive
    omega
  · have := Int.tmod_nonneg b (Int.neg_nonneg_of_nonpos negative)
    rw [Int.neg_tmod] at this
    have : a ≠ 0 := by rintro rfl; simp at uneven
    omega

theorem natAbs_tmod_lt (a : Int) {b : Int} (nonzero : b ≠ 0) : (a.tmod b).natAbs < b.natAbs := by
  rw [Int.natAbs_tmod]
  exact Nat.mod_lt _ (by omega)

theorem fdiv_eq (a : Int) {b : Int} (nonzero : b ≠ 0) :
    a.fdiv b = if a.tmod b ≠ 0 ∧ ¬ (a < 0 ↔ b < 0) then a.tdiv b - 1 else a.tdiv b := by
  have whole : b ∣ a ↔ a.tmod b = 0 := Int.dvd_iff_tmod_eq_zero
  rw [Int.fdiv_eq_tdiv]
  -- The sign of `b` stands in the formula; the sign of `a` and divisibility are cases of it.
  rcases Int.lt_or_gt_of_ne nonzero with negative | positive
  · rw [Int.sign_eq_neg_one_of_neg negative]
    grind
  · rw [Int.sign_eq_one_of_pos positive]
    grind

theorem fmod_eq (a : Int) {b : Int} (nonzero : b ≠ 0) :
    a.fmod b = if a.tmod b ≠ 0 ∧ ¬ (a.tmod b < 0 ↔ b < 0) then a.tmod b + b else a.tmod b := by
  have product : b * a.tdiv b + a.tmod b = a := Int.mul_tdiv_add_tmod a b
  rw [Int.fmod_def, fdiv_eq a nonzero]
  by_cases even : a.tmod b = 0
  · simp only [even, ne_eq, not_true_eq_false, false_and, if_false]
    omega
  · simp only [tmod_neg_iff even]
    split
    · rw [Int.mul_sub]
      omega
    · omega

/-! ### Steps of a division -/

theorem natAbs_tdiv_le {a b : Int} (fits : Fits a) (large : 1 < b.natAbs) :
    (a.tdiv b).natAbs ≤ 2 ^ 62 := by
  have halved : a.natAbs / b.natAbs ≤ a.natAbs / 2 := Nat.div_le_div_left large (by decide)
  have ⟨low, high⟩ := fits
  rw [Int.natAbs_tdiv]
  exact halved.trans (by omega)

theorem fits_tdiv_iff {a b : Int} (fits : Fits a) (nonzero : b ≠ 0) :
    Fits (a.tdiv b) ↔ ¬ (a = -2 ^ 63 ∧ b = -1) := by
  have ⟨low, high⟩ := fits
  by_cases one : b = 1
  · subst one
    rw [Int.tdiv_one]
    exact ⟨fun _ => by omega, fun _ => fits⟩
  by_cases minusOne : b = -1
  · subst minusOne
    rw [Int.tdiv_neg, Int.tdiv_one]
    unfold Fits
    omega
  · have := natAbs_tdiv_le fits (b := b) (by omega)
    unfold Fits
    omega

theorem toInt_ne_zero {b : Int64} (nonzero : b ≠ 0) : b.toInt ≠ 0 := by
  rwa [← Int64.toInt_zero, Ne, Int64.toInt_inj]

theorem overflows_iff {a b : Int64} (nonzero : b ≠ 0) :
    overflows a b = true ↔ ¬ Fits (a.toInt.tdiv b.toInt) := by
  rw [fits_tdiv_iff (fits_toInt a) (toInt_ne_zero nonzero)]
  simp only [overflows, Bool.and_eq_true, beq_iff_eq, not_not, ← Int64.toInt_inj]
  rfl

theorem corrects_iff (r c b : Int64) :
    (r != 0 && (c < 0) != (b < 0)) = true ↔ r.toInt ≠ 0 ∧ ¬ (c.toInt < 0 ↔ b.toInt < 0) := by
  simp [← Int64.toInt_inj, Int64.lt_iff_toInt_lt]

/-- No step of dividing `a` by `b` and rounding down leaves 64 bits. One division yields quotient
and remainder, and has no result if the quotient is out of range. -/
structure StepsFit (a b : Int64) : Prop where
  divided : Fits (a.toInt.tdiv b.toInt)
  lowered : (a % b != 0 && (a < 0) != (b < 0)) = true → Fits ((a / b).toInt - 1)
  raised : (a % b != 0 && (a % b < 0) != (b < 0)) = true → Fits ((a % b).toInt + b.toInt)

section Steps

variable {a b : Int64} (nonzero : b ≠ 0) (within : overflows a b = false)

include nonzero within

theorem fits_tdiv : Fits (a.toInt.tdiv b.toInt) := by
  by_contra unfit
  rw [(overflows_iff nonzero).2 unfit] at within
  cases within

theorem toInt_quotient : (a / b).toInt = a.toInt.tdiv b.toInt :=
  toInt_of_bmod (fits_tdiv nonzero within) (Int64.toInt_div a b)

theorem stepsFit : StepsFit a b where
  divided := fits_tdiv nonzero within
  lowered corrected := by
    obtain ⟨uneven, -⟩ := (corrects_iff _ _ _).1 corrected
    rw [Int64.toInt_mod] at uneven
    -- Division by one leaves no remainder, so the quotient is at most half as large as `a`.
    have smaller := natAbs_tmod_lt a.toInt (toInt_ne_zero nonzero)
    have halved := natAbs_tdiv_le (fits_toInt a) (b := b.toInt) (by omega)
    rw [toInt_quotient nonzero within]
    unfold Fits
    omega
  raised corrected := by
    obtain ⟨uneven, apart⟩ := (corrects_iff _ _ _).1 corrected
    have smaller := natAbs_tmod_lt a.toInt (toInt_ne_zero nonzero)
    rw [← Int64.toInt_mod] at smaller
    have ⟨low, high⟩ := fits_toInt b
    unfold Fits
    omega

theorem floorQuotient_toInt : (floorQuotient a b).toInt = a.toInt.fdiv b.toInt := by
  rw [fdiv_eq _ (toInt_ne_zero nonzero), ← Int64.toInt_mod, ← toInt_quotient nonzero within]
  unfold floorQuotient
  by_cases corrected : (a % b != 0 && (a < 0) != (b < 0)) = true
  · have fits := (stepsFit nonzero within).lowered corrected
    rw [if_pos corrected, if_pos ((corrects_iff _ _ _).1 corrected)]
    exact toInt_of_bmod fits (Int64.toInt_sub _ _)
  · rw [if_neg corrected, if_neg (mt (corrects_iff _ _ _).2 corrected)]

theorem floorRemainder_toInt : (floorRemainder a b).toInt = a.toInt.fmod b.toInt := by
  rw [fmod_eq _ (toInt_ne_zero nonzero), ← Int64.toInt_mod]
  unfold floorRemainder
  by_cases corrected : (a % b != 0 && (a % b < 0) != (b < 0)) = true
  · have fits := (stepsFit nonzero within).raised corrected
    rw [if_pos corrected, if_pos ((corrects_iff _ _ _).1 corrected)]
    exact toInt_of_bmod fits (Int64.toInt_add _ _)
  · rw [if_neg corrected, if_neg (mt (corrects_iff _ _ _).2 corrected)]

end Steps

/-! ### Operations on integers -/

theorem onInts_floorDiv (a : Int64) {b : Int64} (nonzero : b ≠ 0) :
    BinaryOp.floorDiv.onInts a b =
      if overflows a b then .error .overflow else .ok (.int (floorQuotient a b)) := by
  simp [BinaryOp.onInts, nonzero]

theorem onInts_mod (a : Int64) {b : Int64} (nonzero : b ≠ 0) :
    BinaryOp.mod.onInts a b =
      if overflows a b then .error .overflow else .ok (.int (floorRemainder a b)) := by
  simp [BinaryOp.onInts, nonzero]

theorem least_of_overflows {a b : Int64} (beyond : overflows a b = true) :
    a = Int64.minValue ∧ b = -1 := by
  simpa [overflows] using beyond

theorem exactly_floorDiv (a : Int64) {b : Int64} (nonzero : b ≠ 0) :
    Exactly (a.toInt.fdiv b.toInt) (BinaryOp.floorDiv.onInts a b) := by
  rw [onInts_floorDiv a nonzero]
  cases within : overflows a b with
  | false =>
    have quotient := floorQuotient_toInt nonzero within
    have fits := fits_toInt (floorQuotient a b)
    rw [quotient] at fits
    exact ⟨fun _ => ⟨_, quotient, rfl⟩, fun unfit => absurd fits unfit⟩
  | true =>
    obtain ⟨rfl, rfl⟩ := least_of_overflows within
    have unfit : ¬ Fits (Int64.minValue.toInt.fdiv (-1 : Int64).toInt) := by decide
    exact ⟨fun fits => absurd fits unfit, fun _ => rfl⟩

theorem floorDiv_eq_divisionByZero_iff (a b : Int64) :
    BinaryOp.floorDiv.onInts a b = .error .divisionByZero ↔ b = 0 := by
  constructor
  · intro refused
    by_contra nonzero
    rw [onInts_floorDiv a nonzero] at refused
    split at refused <;> cases refused
  · rintro rfl
    rfl

theorem fmod_range (a : Int) {b : Int} (nonzero : b ≠ 0) :
    (a.fmod b = 0 ∨ (a.fmod b).sign = b.sign) ∧ (a.fmod b).natAbs < b.natAbs := by
  have smaller := natAbs_tmod_lt a nonzero
  have range : (a.fmod b).natAbs < b.natAbs ∧ (0 < a.fmod b → 0 < b) ∧ (a.fmod b < 0 → b < 0) := by
    rw [fmod_eq a nonzero]
    split <;> omega
  obtain ⟨bounded, positive, negative⟩ := range
  refine ⟨?_, bounded⟩
  rcases Int.lt_trichotomy (a.fmod b) 0 with below | zero | above
  · rw [Int.sign_eq_neg_one_of_neg below, Int.sign_eq_neg_one_of_neg (negative below)]
    exact .inr rfl
  · exact .inl zero
  · rw [Int.sign_eq_one_of_pos above, Int.sign_eq_one_of_pos (positive above)]
    exact .inr rfl

theorem mod_eq_ok {a b r : Int64} (given : BinaryOp.mod.onInts a b = .ok (.int r)) :
    b ≠ 0 ∧ overflows a b = false ∧ r = floorRemainder a b := by
  have nonzero : b ≠ 0 := by
    rintro rfl
    cases given
  rw [onInts_mod a nonzero] at given
  cases within : overflows a b with
  | false =>
    rw [within] at given
    cases given
    exact ⟨nonzero, rfl, rfl⟩
  | true =>
    rw [within] at given
    cases given

theorem onInts_pow (a : Int64) {b : Int64} (low : 0 ≤ b.toInt) (high : b.toInt < 2 ^ 32) :
    BinaryOp.pow.onInts a b = exactPower a.toInt b.toInt.toNat := by
  have inRange : 0 ≤ b.toInt ∧ b.toInt < UInt32.size := ⟨low, high⟩
  simp only [BinaryOp.onInts, if_pos inRange]

/-- Integer operations are exact or report that they are not. -/
theorem onInts_exact (a b : Int64) :
    Exactly (a.toInt + b.toInt) (BinaryOp.add.onInts a b) ∧
    Exactly (a.toInt - b.toInt) (BinaryOp.sub.onInts a b) ∧
    Exactly (a.toInt * b.toInt) (BinaryOp.mul.onInts a b) ∧
    (BinaryOp.floorDiv.onInts a b = .error .divisionByZero ↔ b = 0) ∧
    (b ≠ 0 → Exactly (a.toInt.fdiv b.toInt) (BinaryOp.floorDiv.onInts a b)) ∧
    (0 ≤ b.toInt → b.toInt < 2 ^ 32 →
      Exactly (a.toInt ^ b.toInt.toNat) (BinaryOp.pow.onInts a b)) ∧
    (∀ r : Int64, BinaryOp.mod.onInts a b = .ok (.int r) →
      b ≠ 0 ∧ r.toInt = a.toInt - b.toInt * a.toInt.fdiv b.toInt ∧
      (r.toInt = 0 ∨ r.toInt.sign = b.toInt.sign) ∧ r.toInt.natAbs < b.toInt.natAbs) ∧
    (b ≠ 0 → (overflows a b = true ↔ ¬ Fits (a.toInt.tdiv b.toInt)) ∧
      (overflows a b = false → StepsFit a b)) := by
  refine ⟨exactly_exact _, exactly_exact _, exactly_exact _, floorDiv_eq_divisionByZero_iff a b,
    exactly_floorDiv a, ?_, ?_, fun nonzero => ⟨overflows_iff nonzero, stepsFit nonzero⟩⟩
  · intro low high
    rw [onInts_pow a low high]
    exact exactly_exactPower _ _
  · intro r given
    obtain ⟨nonzero, within, rfl⟩ := mod_eq_ok given
    obtain ⟨sign, smaller⟩ := fmod_range a.toInt (toInt_ne_zero nonzero)
    rw [floorRemainder_toInt nonzero within]
    exact ⟨nonzero, Int.fmod_def _ _, sign, smaller⟩

/-! ### The least integer by minus one -/

/-- The floor modulo is an integer for every divisor but zero. It is also the result, except for the
one pair of operands whose quotient is out of range. -/
theorem mod_exact_iff_not_least {a b : Int64} (nonzero : b ≠ 0) :
    Fits (a.toInt - b.toInt * a.toInt.fdiv b.toInt) ∧
    ((∃ r : Int64, r.toInt = a.toInt - b.toInt * a.toInt.fdiv b.toInt ∧
      BinaryOp.mod.onInts a b = .ok (.int r)) ↔ ¬ (a = Int64.minValue ∧ b = -1)) ∧
    (a = Int64.minValue ∧ b = -1 → BinaryOp.mod.onInts a b = .error .overflow) := by
  refine ⟨?_, ?_, ?_⟩
  · obtain ⟨-, smaller⟩ := fmod_range a.toInt (toInt_ne_zero nonzero)
    have ⟨low, high⟩ := fits_toInt b
    rw [← Int.fmod_def]
    unfold Fits
    omega
  · constructor
    · rintro ⟨r, -, given⟩ ⟨rfl, rfl⟩
      cases given
    · intro ordinary
      have within : overflows a b = false := by
        by_contra beyond
        exact ordinary (least_of_overflows (by simpa using beyond))
      refine ⟨floorRemainder a b, ?_, by simp [onInts_mod a nonzero, within]⟩
      rw [floorRemainder_toInt nonzero within, Int.fmod_def]
  · rintro ⟨rfl, rfl⟩
    rfl

theorem mod_exact_iff_not_least_largest : Int64.maxValue ≠ 0 ∧
    ∃ r : Int64, r.toInt = 2 ^ 63 - 2 ∧
      BinaryOp.mod.onInts Int64.minValue Int64.maxValue = .ok (.int r) := by
  refine ⟨by decide, ?_⟩
  have total := (mod_exact_iff_not_least (a := .minValue) (b := .maxValue) (by decide)).2.1
  exact total.2 (by decide)

/-- The remainder is zero and is refused. -/
theorem remainder_of_least_refused : (-1 : Int64) ≠ 0 ∧
    Int64.minValue.toInt - (-1 : Int64).toInt * Int64.minValue.toInt.fdiv (-1 : Int64).toInt = 0 ∧
    BinaryOp.mod.onInts Int64.minValue (-1) = .error .overflow := by
  exact ⟨by decide, by decide, rfl⟩

end RobotScript
