import Mathlib.Analysis.SpecialFunctions.Complex.Arg
import RobotScript.Number.Scalar

/-!
# Motion in the real numbers

The formulas of motion, read without any rounding. Only the conversions to whole numbers keep to
64 bits.
-/

namespace RobotScript

/-- An integer kept within 64 bits. -/
def keepInt64 (n : Int) : Int := max Int64.minValue.toInt (min Int64.maxValue.toInt n)

noncomputable instance : Scalar ℝ where
  toAdd := inferInstance
  toSub := inferInstance
  toMul := inferInstance
  toDiv := inferInstance
  toNeg := inferInstance
  toLT := inferInstance
  toLE := inferInstance
  toBEq := ⟨fun x y => decide (x = y)⟩
  toOfScientific := inferInstance
  decLt := inferInstance
  decLe := inferInstance
  ofNat n := n
  abs x := |x|
  unit x := if 0 ≤ x then 1 else -1
  sqrt := Real.sqrt
  sin := Real.sin
  cos := Real.cos
  tan := Real.tan
  atan2 y x := Complex.arg ⟨x, y⟩
  pi := Real.pi
  degreesPerRadian := 180 / Real.pi
  fold a b := a - |b| * ⌊a / |b|⌋
  isFinite _ := true
  trunc x := keepInt64 (if 0 ≤ x then ⌊x⌋ else ⌈x⌉)
  round x := keepInt64 (if 0 ≤ x then ⌊x + 1 / 2⌋ else ⌈x - 1 / 2⌉)

namespace Scalar

/-! ### Angles -/

theorem tau_eq : (tau : ℝ) = 2 * Real.pi := by
  unfold tau
  show (2.0 : ℝ) * Real.pi = _
  norm_num

theorem tau_pos : (0 : ℝ) < tau := by
  rw [tau_eq]
  exact Real.two_pi_pos

theorem radians_eq (d : ℝ) : radians d = d * (Real.pi / 180) := by
  unfold radians
  show d * (Real.pi / 180.0) = _
  norm_num

theorem radians_degrees (x : ℝ) : radians (degrees x) = x := by
  rw [radians_eq]
  show x * (180 / Real.pi) * (Real.pi / 180) = x
  field_simp

theorem radians_add (a b : ℝ) : radians (a + b) = radians a + radians b := by
  simp only [radians_eq]
  ring

theorem radians_sub (a b : ℝ) : radians (a - b) = radians a - radians b := by
  simp only [radians_eq]
  ring

theorem radians_quarter : radians (90.0 : ℝ) = Real.pi / 2 := by
  rw [radians_eq]
  norm_num
  ring

theorem radians_half : radians (180.0 : ℝ) = Real.pi := by
  rw [radians_eq]
  norm_num

theorem radians_whole : radians (360.0 : ℝ) = 2 * Real.pi := by
  rw [radians_eq]
  norm_num
  ring

/-! ### Folding -/

variable {a b c : ℝ}

theorem fold_eq (a : ℝ) (pos : 0 < b) : fold a b = a - ⌊a / b⌋ * b := by
  show a - |b| * ⌊a / |b|⌋ = _
  rw [abs_of_pos pos, mul_comm]

theorem fold_nonneg (a : ℝ) (pos : 0 < b) : 0 ≤ fold a b := by
  rw [fold_eq a pos]
  exact Int.sub_floor_div_mul_nonneg a pos

theorem fold_lt (a : ℝ) (pos : 0 < b) : fold a b < b := by
  rw [fold_eq a pos]
  exact Int.sub_floor_div_mul_lt a pos

theorem fold_sub_int_mul (a : ℝ) (pos : 0 < b) (k : ℤ) : fold (a - k * b) b = fold a b := by
  rw [fold_eq _ pos, fold_eq _ pos, sub_div, mul_div_cancel_right₀ _ pos.ne', Int.floor_sub_intCast]
  push_cast
  ring

/-- Folding on the way to a sum makes no difference. -/
theorem fold_fold_add (a c : ℝ) (pos : 0 < b) : fold (fold a b + c) b = fold (a + c) b := by
  rw [fold_eq a pos, sub_add_eq_add_sub, fold_sub_int_mul _ pos]

theorem cos_fold_tau (a : ℝ) : cos (fold a tau) = cos a := by
  rw [fold_eq a tau_pos, tau_eq]
  exact Real.cos_sub_int_mul_two_pi a _

theorem sin_fold_tau (a : ℝ) : sin (fold a tau) = sin a := by
  rw [fold_eq a tau_pos, tau_eq]
  exact Real.sin_sub_int_mul_two_pi a _

end Scalar

end RobotScript
