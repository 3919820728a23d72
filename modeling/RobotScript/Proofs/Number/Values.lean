import Mathlib.Algebra.Order.Floor.Semifield
import Mathlib.Data.Rat.Floor
import Mathlib.Tactic.FieldSimp
import Mathlib.Tactic.Linarith
import RobotScript.Number.Binary

/-!
# The values of numbers

Numbers compare as their values do, if they have one. Rounding to a count is a matter of the value
alone.
-/

namespace RobotScript.Binary

open Float.Model (UnpackedFloat)

/-! ### Comparisons

Undefined numbers compare with nothing. All others equal themselves. -/

theorem compare_self {x : UnpackedFloat} (number : x ≠ .notANumber) : x.compare x = some .eq := by
  cases x with
  | notANumber => exact absurd rfl number
  | zero => rfl
  | infinity s => cases s <;> rfl
  | finite s m e =>
    have same : (compare e e).then (compare m m) = .eq := by
      rw [Std.ReflOrd.compare_self, Std.ReflOrd.compare_self]
      rfl
    cases s with
    | positive => exact congrArg some same
    | negative => exact congrArg (fun order => some order.swap) same

theorem numbers_of_compare {x y : UnpackedFloat} {order : Ordering}
    (compared : x.compare y = some order) : x ≠ .notANumber ∧ y ≠ .notANumber := by
  constructor
  · rintro rfl
    cases compared
  · rintro rfl
    cases x <;> cases compared

theorem lt_iff {a b : Float32} : a < b ↔ (view32 a).compare (view32 b) = some .lt := by
  show decide (UnpackedFloat.lt _ _ = true) = true ↔ _
  rw [decide_eq_true_iff, UnpackedFloat.lt, beq_iff_eq]

theorem le_iff {a b : Float32} :
    a ≤ b ↔ ∃ order, (view32 a).compare (view32 b) = some order ∧ order.isLE = true := by
  show decide (UnpackedFloat.le _ _ = true) = true ↔ _
  rw [decide_eq_true_iff, UnpackedFloat.le, Option.any_eq_true]

theorem not_lt_self (a : Float32) : ¬a < a := by
  rw [lt_iff]
  intro less
  rw [compare_self (numbers_of_compare less).1] at less
  cases less

theorem le_of_lt {a b : Float32} (less : a < b) : a ≤ b :=
  le_iff.2 ⟨.lt, lt_iff.1 less, rfl⟩

theorem le_self_of_le {a b : Float32} (ordered : a ≤ b) : a ≤ a ∧ b ≤ b := by
  obtain ⟨order, compared, -⟩ := le_iff.1 ordered
  obtain ⟨left, right⟩ := numbers_of_compare compared
  exact ⟨le_iff.2 ⟨.eq, compare_self left, rfl⟩, le_iff.2 ⟨.eq, compare_self right, rfl⟩⟩

theorem compare_swap (x y : UnpackedFloat) : y.compare x = (x.compare y).map Ordering.swap := by
  have finite (e f : Int) (m n : Nat) : (compare f e).then (compare n m) =
      ((compare e f).then (compare m n)).swap := by
    rw [Ordering.swap_then, ← Std.OrientedOrd.eq_swap, ← Std.OrientedOrd.eq_swap]
  cases x with
  | notANumber => cases y <;> rfl
  | infinity s => cases s <;> rcases y with (_ | _) | _ | _ | _ <;> rfl
  | zero s => rcases y with (_ | _) | _ | _ | ⟨_ | _⟩ <;> rfl
  | finite s m e pos =>
    cases y with
    | notANumber => rfl
    | infinity t => cases t <;> rfl
    | zero t => cases s <;> rfl
    | finite t n f =>
      have swapped := finite e f m n
      cases s <;> cases t
      case positive.positive => exact congrArg some swapped
      case negative.negative => exact congrArg (some ·.swap) swapped
      all_goals rfl

theorem exists_compare {x y : UnpackedFloat} (left : x ≠ .notANumber) (right : y ≠ .notANumber) :
    ∃ order, x.compare y = some order := by
  cases x with
  | notANumber => exact absurd rfl left
  | infinity s | zero s | finite s =>
    cases y with
    | notANumber => exact absurd rfl right
    | infinity t | zero t | finite t => cases s <;> cases t <;> exact ⟨_, rfl⟩

/-- Of two numbers that compare at all, one is less or the other is not greater. -/
theorem not_lt_iff_le {a b : Float32} (left : view32 a ≠ .notANumber)
    (right : view32 b ≠ .notANumber) : ¬a < b ↔ b ≤ a := by
  obtain ⟨order, compared⟩ := exists_compare left right
  rw [lt_iff, le_iff, compare_swap (view32 a) (view32 b), compared]
  cases order <;> simp

theorem ne_notANumber_of_isFinite {a : Float32} (finite : a.isFinite = true) :
    view32 a ≠ .notANumber := by
  intro undefined
  have known : (view32 a).isFinite = true := finite
  rw [undefined] at known
  cases known

/-! ### Values -/

/-- The exact value of a number that is neither infinite nor undefined. -/
def value : UnpackedFloat → ℚ
  | .finite s m e _ => s.apply 1 * (m * 2 ^ e)
  | _ => 0

theorem value_zero (s : UnpackedFloat.Sign) : value (.zero s) = 0 := rfl

theorem value_finite (s : UnpackedFloat.Sign) (m : Nat) (e : Int) (pos : 0 < m) :
    value (.finite s m e pos) = s.apply 1 * (m * 2 ^ e) := rfl

theorem fraction_value (m : Nat) (e : Int) :
    0 < (fraction m e).2 ∧ ((fraction m e).1 : ℚ) = m * 2 ^ e * (fraction m e).2 := by
  unfold fraction
  split
  · rename_i nonneg
    obtain ⟨k, rfl⟩ := Int.eq_ofNat_of_zero_le nonneg
    simp [Nat.shiftLeft_eq]
  · rename_i negative
    obtain ⟨k, rfl⟩ : ∃ k : Nat, e = -k := ⟨e.natAbs, by omega⟩
    have scale : (2 : ℚ) ^ k ≠ 0 := by positivity
    simp [Nat.shiftLeft_eq, scale]

/-- Halves go up. -/
theorem halfUp_eq (m : Nat) (e : Int) :
    Rounding.halfUp.divide (fraction m e).1 (fraction m e).2 = ⌊(m * 2 ^ e : ℚ) + 1 / 2⌋₊ := by
  obtain ⟨pos, exact⟩ := fraction_value m e
  generalize (fraction m e).1 = n, (fraction m e).2 = d at pos exact
  have scaled : (m * 2 ^ e : ℚ) + 1 / 2 = ((2 * n + d : Nat) : ℚ) / ((2 * d : Nat) : ℚ) := by
    have nonzero : (d : ℚ) ≠ 0 := by exact_mod_cast pos.ne'
    push_cast
    rw [exact]
    field_simp
  rw [scaled, Nat.floor_div_eq_div]
  rfl

theorem nearestUInt32_finite (s : UnpackedFloat.Sign) (m : Nat) (e : Int) (pos : 0 < m) :
    nearestUInt32 (.finite s m e pos) =
      (max 0 (min ((UInt32.size : Int) - 1) (s.apply ⌊(m * 2 ^ e : ℚ) + 1 / 2⌋₊))).toNat.toUInt32 := by
  have counted : Rounding.halfUp.divide (fraction (m * 1) e).1 (fraction (m * 1) e).2 =
      ⌊(m * 2 ^ e : ℚ) + 1 / 2⌋₊ := by
    rw [Nat.mul_one, halfUp_eq]
  rw [← counted]
  rfl

/-- A finite number is rounded to the nearest count, halves going up, and to the greatest one if that
is less. -/
theorem nearestUInt32_toNat {x : UnpackedFloat} (finite : x.isFinite = true) :
    (nearestUInt32 x).toNat = min (UInt32.size - 1) ⌊value x + 1 / 2⌋₊ := by
  cases x with
  | notANumber | infinity s => cases finite
  | zero s =>
    rw [value_zero, show nearestUInt32 (.zero s) = 0 from rfl]
    norm_num
  | finite s m e pos =>
    rw [nearestUInt32_finite]
    cases s with
    | negative =>
      -- the value is below zero, so it rounds to zero or less
      have below : value (.finite .negative m e pos) + 1 / 2 < 1 := by
        have nonneg : (0 : ℚ) ≤ m * 2 ^ e :=
          mul_nonneg (Nat.cast_nonneg m) (zpow_nonneg (by norm_num) e)
        rw [value_finite, UnpackedFloat.Sign.apply]
        push_cast
        linarith only [nonneg]
      rw [Nat.floor_eq_zero.2 below]
      simp [UnpackedFloat.Sign.apply]
    | positive =>
      have same : value (.finite .positive m e pos) = m * 2 ^ e := by
        rw [value_finite, UnpackedFloat.Sign.apply, Int.cast_one, one_mul]
      rw [same]
      generalize ⌊(m * 2 ^ e : ℚ) + 1 / 2⌋₊ = q
      have kept : (max 0 (min ((UInt32.size : Int) - 1) (q : Int))).toNat =
          min (UInt32.size - 1) q := by
        omega
      have small : min (UInt32.size - 1) q < UInt32.size := by
        have : 0 < UInt32.size := by decide
        omega
      rw [UnpackedFloat.Sign.apply, kept, Nat.toUInt32_eq, UInt32.toNat_ofNat_of_lt' small]

end RobotScript.Binary
