import RobotScript.Proofs.Number.Accuracy

/-!
# The order of numbers

Finite numbers of single precision are ordered as their values are. Negation and multiplication by
one are exact, however small the number.
-/

namespace RobotScript.Binary

open Float.Model (Format totalExponent UnpackedFloat)
open Float.Model.UnpackedFloat (Sign roundWithAccuracy)

section Canonical

variable {format : Format} {m n : Nat} {e f : Int}

/-- Above the least exponent no leading bit is missing. -/
theorem Canonical.lt_of_lt (left : Canonical format m e) (right : Canonical format n f)
    (less : e < f) : (m * 2 ^ e : ℚ) < n * 2 ^ f := by
  have bits : format.mantissaBits = format.mantissaBitsWithoutImplicit + 1 := Nat.add_comm _ _
  have two : (2 : ℚ) ≠ 0 := by norm_num
  have bottom := left.low
  have leading : 2 ^ format.mantissaBitsWithoutImplicit ≤ n := by
    obtain normal | ⟨-, rfl⟩ := right.normal_or_least
    · have long := normal.bits
      exact (Nat.le_log2 right.pos.ne').1 (by omega)
    · omega
  have short : (m : ℚ) < 2 ^ format.mantissaBits := by exact_mod_cast left.lt_two_pow
  have unit : (0 : ℚ) < 2 ^ e := zpow_pos (by norm_num) e
  calc (m : ℚ) * 2 ^ e < 2 ^ format.mantissaBits * 2 ^ e := mul_lt_mul_of_pos_right short unit
    _ = 2 ^ format.mantissaBitsWithoutImplicit * 2 ^ (e + 1) := by
      rw [bits, zpow_add₀ two, zpow_one, pow_succ]
      ring
    _ ≤ n * 2 ^ f := by
      gcongr
      · exact_mod_cast leading
      · norm_num
      · exact less

theorem Canonical.compare_eq_lt_iff (left : Canonical format m e) (right : Canonical format n f) :
    (compare e f).then (compare m n) = .lt ↔ (m * 2 ^ e : ℚ) < n * 2 ^ f := by
  rcases lt_trichotomy e f with less | rfl | less
  · rw [compare_lt_iff_lt.2 less]
    exact iff_of_true rfl (left.lt_of_lt right less)
  · have unit : (0 : ℚ) < 2 ^ e := zpow_pos (by norm_num) e
    rw [Std.ReflOrd.compare_self, mul_lt_mul_iff_left₀ unit, Nat.cast_lt]
    exact compare_lt_iff_lt
  · rw [compare_gt_iff_gt.2 less]
    exact iff_of_false (by simp) (right.lt_of_lt left less).not_gt

end Canonical

theorem compare_eq_lt_iff {u v : UnpackedFloat} (left : Kept .binary32 u)
    (right : Kept .binary32 v) : u.compare v = some .lt ↔ value u < value v := by
  cases u with
  | notANumber | infinity s => cases left.finite
  | zero s =>
    cases v with
    | notANumber | infinity t => cases right.finite
    | zero t => simp [UnpackedFloat.compare, value_zero]
    | finite t n f pos =>
      have some := pos_value pos f
      cases t <;> simp [UnpackedFloat.compare, value_zero, value_finite, Sign.apply, some, some.le]
  | finite s m e pos =>
    have first := pos_value pos e
    cases v with
    | notANumber | infinity t => cases right.finite
    | zero t =>
      cases s <;>
        simp [UnpackedFloat.compare, value_zero, value_finite, Sign.apply, first, first.le]
    | finite t n f pos' =>
      have second := pos_value pos' f
      have canonical := canonical_of_unpack (by decide) left.same
      have canonical' := canonical_of_unpack (by decide) right.same
      cases s <;> cases t <;>
        simp only [UnpackedFloat.compare, value_finite, Sign.apply, Option.some.injEq]
      case negative.negative =>
        rw [Ordering.swap_then, ← Std.OrientedOrd.eq_swap, ← Std.OrientedOrd.eq_swap,
          canonical'.compare_eq_lt_iff canonical]
        simp
      case negative.positive => simpa using by linarith
      case positive.negative => simpa using by linarith
      case positive.positive =>
        rw [canonical.compare_eq_lt_iff canonical']
        simp

section Float32

variable {x y : Float32}

theorem lt_iff_value_lt (left : x.isFinite = true) (right : y.isFinite = true) :
    x < y ↔ value (view32 x) < value (view32 y) := by
  rw [lt_iff, compare_eq_lt_iff (kept_view32 left) (kept_view32 right)]

theorem view32_neg (finite : x.isFinite = true) : view32 (-x) = (view32 x).neg :=
  ((kept_view32 finite).neg (by decide)).same

theorem isFinite_neg (finite : x.isFinite = true) : (-x).isFinite = true := by
  show (view32 (-x)).isFinite = true
  rw [view32_neg finite]
  exact ((kept_view32 finite).neg (by decide)).finite

theorem value_view32_neg (finite : x.isFinite = true) :
    value (view32 (-x)) = -value (view32 x) := by
  rw [view32_neg finite, value_neg]

theorem lt_neg_iff (left : x.isFinite = true) (right : y.isFinite = true) : x < -y ↔ y < -x := by
  rw [lt_iff_value_lt left (isFinite_neg right), lt_iff_value_lt right (isFinite_neg left),
    value_view32_neg left, value_view32_neg right]
  exact lt_neg

theorem view32_mul_one (finite : x.isFinite = true) : view32 (x * 1.0) = view32 x := by
  have kept := kept_view32 finite
  have one : view32 1.0 = .finite .positive (2 ^ 23) (-23) (by decide) := rfl
  show view32 (.ofModel (.pack (.mul .binary32 (view32 x) (view32 1.0)))) = _
  rw [one]
  generalize view32 x = u at kept
  cases u with
  | notANumber | infinity s => cases kept.finite
  | zero s =>
    have same : s * .positive = s := by cases s <;> rfl
    show view32 (.ofModel (.pack (.zero (s * .positive)))) = _
    rw [same]
    exact kept.same
  | finite s m e pos =>
    have same : s * .positive = s := by cases s <;> rfl
    have canonical := canonical_of_unpack (by decide) kept.same
    show view32 (.ofModel (.pack (roundWithAccuracy .binary32 (s * .positive) (m * 2 ^ 23)
      (e - (23 : Nat)) .exact))) = _
    rw [same, canonical.roundWithAccuracy_eq s 23]
    exact kept.same

end Float32

end RobotScript.Binary
