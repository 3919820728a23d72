import RobotScript.Proofs.Number.Whole

/-!
# How far off rounding is

A rounded value is off by at most a unit in the last place that its format has for it. So the
result of an operation in single precision is off its exact value by at most one part in `2 ^ 23`,
as long as that value is neither very large nor very small.
-/

namespace RobotScript.Binary

open Float.Model (Format totalExponent UnpackedFloat)
open Float.Model.UnpackedFloat (Sign Accuracy ExtendedMantissa roundWithAccuracy
  shiftToTargetExponent shiftToExponent decreaseExponent)

theorem abs_signed (s : Sign) (q : ℚ) : |(s.apply 1 * q : ℚ)| = |q| := by
  cases s <;> simp [Sign.apply]

theorem abs_value (s : Sign) (m : Nat) (e : Int) : |(s.apply 1 * (m * 2 ^ e) : ℚ)| = m * 2 ^ e := by
  rw [abs_signed, abs_of_nonneg (nonneg_value m e)]

/-! ### Rounding -/

section Rounding

variable {format : Format} {m : Nat} {e : Int}

theorem mantissa_shiftRight (em : ExtendedMantissa) (k : Nat) :
    (em >>> k).mantissa = em.mantissa / 2 ^ k := by
  show (k.repeat ExtendedMantissa.shiftRightOne em).mantissa = _
  induction k with
  | zero => simp [Nat.repeat]
  | succ k ih =>
    rw [Nat.repeat, ExtendedMantissa.shiftRightOne, ih, Nat.div_div_eq_div_mul, Nat.pow_succ]

theorem roundedMantissa_cases (em : ExtendedMantissa) :
    em.roundedMantissa = em.mantissa ∨ em.roundedMantissa = em.mantissa + 1 := by
  obtain ⟨m, half, rest⟩ := em
  cases half with
  | false => cases rest <;> exact .inl rfl
  | true =>
    cases rest with
    | false =>
      show m + m % 2 = m ∨ m + m % 2 = m + 1
      omega
    | true => exact .inr rfl

/-- Rounding up may carry into one bit more than there are. -/
theorem exists_canonical_of_le {r : Nat} (pos : 0 < r) (most : r ≤ 2 ^ format.mantissaBits)
    (least : 2 ^ format.mantissaBitsWithoutImplicit ≤ r ∨ e = format.minExponent)
    (low : format.minExponent ≤ e)
    (high : e + 1 ≤ (format.exponentBias : Int) - format.mantissaBitsWithoutImplicit) :
    ∃ n k : Nat, Canonical format n (e + k) ∧ r = n * 2 ^ k := by
  have bits : format.mantissaBits = format.mantissaBitsWithoutImplicit + 1 := Nat.add_comm _ _
  rcases Nat.lt_or_eq_of_le most with less | rfl
  · refine ⟨r, 0, ⟨pos, ?_, by omega⟩, by simp⟩
    have short := (Nat.log2_lt pos.ne').2 less
    unfold Format.targetExponent totalExponent
    rcases least with leading | rfl
    · have long := (Nat.le_log2 pos.ne').2 leading
      omega
    · omega
  · refine ⟨2 ^ format.mantissaBitsWithoutImplicit, 1, Normal.canonical ⟨?_, ?_, ?_⟩, ?_⟩
    · rw [Nat.log2_two_pow, bits]
    · omega
    · omega
    · rw [bits, Nat.pow_succ, Nat.pow_one]

/-- Rounding cuts a mantissa off at the last place that the format has for it, and adds one there or
not. The mantissa may be one that has been cut off before, as `accuracy` tells. -/
theorem roundWithAccuracy_cut (pos : 0 < m) (some : 0 < format.exponentBias)
    (fits : e ≤ format.targetExponent (totalExponent m e))
    (high : totalExponent m e ≤ format.exponentBias) (s : Sign) (accuracy : Accuracy) :
    ∃ k r : Nat, format.targetExponent (totalExponent m e) = e + k ∧
      (r = m / 2 ^ k ∨ r = m / 2 ^ k + 1) ∧
      Kept format (roundWithAccuracy format s m e accuracy) ∧
      value (roundWithAccuracy format s m e accuracy) = s.apply 1 * (r * 2 ^ (e + k)) := by
  have bits : format.mantissaBits = format.mantissaBitsWithoutImplicit + 1 := Nat.add_comm _ _
  have lowest := minExponent_eq format
  obtain ⟨k, target⟩ := Int.le.dest fits
  have place : e + k = max (totalExponent m e - format.mantissaBits) format.minExponent := target
  unfold totalExponent at place high
  generalize start : ExtendedMantissa.ofMantissaAndAccuracy m accuracy = em
  have whole : em.mantissa = m := by
    rw [← start]
    cases accuracy with
    | exact => rfl
    | inexact order => cases order <;> rfl
  have first : shiftToTargetExponent format m e accuracy = (em >>> k, e + k) := by
    have amount : (e + k - e).toNat = k := by omega
    unfold shiftToTargetExponent shiftToExponent
    simp only [← target, amount, start]
  have rounded := roundedMantissa_cases (em >>> k)
  rw [mantissa_shiftRight, whole] at rounded
  generalize cut : (em >>> k).roundedMantissa = r at rounded
  have below : m / 2 ^ k < 2 ^ format.mantissaBits := by
    rw [Nat.div_lt_iff_lt_mul (Nat.two_pow_pos k), ← Nat.pow_add]
    exact Nat.lt_log2_self.trans_le (Nat.pow_le_pow_right (by decide) (by omega))
  have result : roundWithAccuracy format s m e accuracy =
      let shifted := shiftToTargetExponent format r (e + k) .exact
      if none : shifted.1.mantissa = 0 then .zero s
      else .finite s shifted.1.mantissa shifted.2 (Nat.pos_of_ne_zero none) := by
    unfold roundWithAccuracy
    rw [first]
    dsimp only
    rw [cut]
  refine ⟨k, r, target.symm, rounded, ?_⟩
  rw [result]
  rcases Nat.eq_zero_or_pos r with rfl | left
  · simp only [shift_zero, dite_true]
    exact ⟨kept_zero format s, by simp [value_zero]⟩
  · have least : 2 ^ format.mantissaBitsWithoutImplicit ≤ r ∨ e + k = format.minExponent := by
      rcases le_or_gt (e + k) format.minExponent with low | high
      · exact .inr (by omega)
      · have leading : 2 ^ format.mantissaBitsWithoutImplicit ≤ m / 2 ^ k := by
          rw [Nat.le_div_iff_mul_le (Nat.two_pow_pos k), ← Nat.pow_add]
          exact (Nat.pow_le_pow_right (by decide) (by omega)).trans (Nat.log2_self_le pos.ne')
        exact .inl (by omega)
    obtain ⟨n, j, canonical, carried⟩ :=
      exists_canonical_of_le left (by omega) least (by omega) (by omega)
    have second := canonical.shift_eq j
    rw [Int.add_sub_cancel, ← carried] at second
    rw [second]
    dsimp only
    rw [dif_neg canonical.pos.ne']
    refine ⟨canonical.kept s, ?_⟩
    rw [value_finite, carried, zpow_add₀ (by norm_num), zpow_natCast]
    push_cast
    ring

theorem abs_sub_le_of_cut {k r : Nat} {x : ℚ} (cut : r = m / 2 ^ k ∨ r = m / 2 ^ k + 1)
    (low : m ≤ x) (high : x ≤ m + 1) : |r * 2 ^ k - x| ≤ 2 ^ k := by
  have unit : (0 : ℚ) < 2 ^ k := by positivity
  have below : ((m / 2 ^ k : Nat) * 2 ^ k : ℚ) ≤ m := by
    exact_mod_cast Nat.div_mul_le_self m (2 ^ k)
  have above : (m + 1 : ℚ) ≤ (m / 2 ^ k : Nat) * 2 ^ k + 2 ^ k := by
    exact_mod_cast Nat.lt_div_mul_add (Nat.two_pow_pos k)
  rw [abs_sub_le_iff]
  rcases cut with rfl | rfl
  · exact ⟨by linarith, by linarith⟩
  · rw [Nat.cast_add, Nat.cast_one, add_mul, one_mul]
    exact ⟨by linarith, by linarith⟩

/-- The exact value `x` may have been cut off to the mantissa. -/
theorem roundWithAccuracy_near (pos : 0 < m) (some : 0 < format.exponentBias)
    (fits : e ≤ format.targetExponent (totalExponent m e))
    (high : totalExponent m e ≤ format.exponentBias) (s : Sign) (accuracy : Accuracy) {x : ℚ}
    (below : m ≤ x) (above : x ≤ m + 1) :
    Kept format (roundWithAccuracy format s m e accuracy) ∧
      |value (roundWithAccuracy format s m e accuracy) - s.apply 1 * (x * 2 ^ e)| ≤
        2 ^ format.targetExponent (totalExponent m e) := by
  obtain ⟨k, r, target, cut, kept, rounded⟩ :=
    roundWithAccuracy_cut pos some fits high s accuracy
  refine ⟨kept, ?_⟩
  have two : (2 : ℚ) ≠ 0 := by norm_num
  have unit : (0 : ℚ) < 2 ^ e := zpow_pos (by norm_num) e
  have scaled : (r * 2 ^ (e + k) - x * 2 ^ e : ℚ) = (r * 2 ^ k - x) * 2 ^ e := by
    rw [zpow_add₀ two, zpow_natCast]
    ring
  rw [rounded, target, ← mul_sub, abs_signed, scaled, abs_mul, abs_of_pos unit, zpow_add₀ two,
    zpow_natCast, mul_comm ((2 : ℚ) ^ e)]
  gcongr
  exact abs_sub_le_of_cut cut below above

theorem two_pow_target_le (pos : 0 < m) :
    (2 ^ format.targetExponent (totalExponent m e) : ℚ) ≤
      max ((m : ℚ) * 2 ^ e / 2 ^ format.mantissaBitsWithoutImplicit) (2 ^ format.minExponent) := by
  unfold Format.targetExponent
  rcases le_total format.minExponent (totalExponent m e - format.mantissaBits) with low | low
  · rw [max_eq_left low]
    refine le_max_of_le_left ?_
    have leading : (2 ^ m.log2 : ℚ) ≤ m := by exact_mod_cast Nat.log2_self_le pos.ne'
    have place : totalExponent m e - format.mantissaBits =
        m.log2 + e - format.mantissaBitsWithoutImplicit := by
      unfold totalExponent Format.mantissaBits
      push_cast
      ring
    rw [place, zpow_sub₀ (by norm_num), zpow_add₀ (by norm_num), zpow_natCast, zpow_natCast]
    gcongr
  · rw [max_eq_right low]
    exact le_max_right _ _

/-- A mantissa with too few bits is filled up with zeros before. -/
theorem round_near (pos : 0 < m) (some : 0 < format.exponentBias)
    (high : totalExponent m e ≤ format.exponentBias) (s : Sign) :
    Kept format (UnpackedFloat.round format s m e) ∧
      |value (UnpackedFloat.round format s m e) - s.apply 1 * (m * 2 ^ e)| ≤
        2 ^ format.targetExponent (totalExponent m e) := by
  unfold UnpackedFloat.round decreaseExponent
  dsimp only
  generalize filled : (e - format.targetExponent (totalExponent m e)).toNat = k
  have same : totalExponent (m * 2 ^ k) (e - k) = totalExponent m e := by
    rw [totalExponent_scaled pos, Int.sub_add_cancel]
  have exact : ((m * 2 ^ k : Nat) * 2 ^ (e - k) : ℚ) = m * 2 ^ e := by
    rw [zpow_sub₀ (by norm_num), zpow_natCast]
    push_cast
    field_simp
  have near := roundWithAccuracy_near (Nat.mul_pos pos (Nat.two_pow_pos k)) some
    (same ▸ by omega) (same ▸ high) s .exact le_rfl (by linarith)
  rwa [exact, same, ← Nat.shiftLeft_eq] at near

/-- A mantissa with more bits than the format has is not too short. -/
theorem fits_of_wide (wide : format.mantissaBits ≤ m.log2 + 1) :
    e ≤ format.targetExponent (totalExponent m e) := by
  unfold Format.targetExponent totalExponent
  omega

theorem totalExponent_le {j : Int} (pos : 0 < m) (small : (m * 2 ^ e : ℚ) ≤ 2 ^ j) :
    totalExponent m e ≤ j + 1 := by
  have leading : (2 ^ m.log2 : ℚ) ≤ m := by exact_mod_cast Nat.log2_self_le pos.ne'
  have unit : (0 : ℚ) < 2 ^ e := zpow_pos (by norm_num) e
  have order : (m.log2 : Int) + e ≤ j := by
    rw [← zpow_le_zpow_iff_right₀ (show (1 : ℚ) < 2 by norm_num), zpow_add₀ (by norm_num),
      zpow_natCast]
    exact (mul_le_mul_of_nonneg_right leading unit.le).trans small
  unfold totalExponent
  omega

end Rounding

/-! ### Operations -/

/-- Neither too large nor too small to be rounded to 24 bits. -/
def Moderate (q : ℚ) : Prop := 2 ^ (-126 : Int) ≤ |q| ∧ |q| ≤ 2 ^ 126

/-- The number `x` is off `q` by at most one part in `2 ^ 23`. -/
def Close (x : Float32) (q : ℚ) : Prop :=
  x.isFinite = true ∧ |value (view32 x) - q| * 2 ^ 23 ≤ |q|

/-- The number `x` is off `q` by at most one part in `2 ^ 23`, or by the least number there is. -/
def Near (x : Float32) (q : ℚ) : Prop :=
  x.isFinite = true ∧ |value (view32 x) - q| ≤ max (|q| / 2 ^ 23) (2 ^ (-149 : Int))

theorem Near.close {x : Float32} {q : ℚ} (near : Near x q) (moderate : Moderate q) :
    Close x q := by
  refine ⟨near.1, (le_div_iff₀ (by norm_num)).1 (near.2.trans_eq (max_eq_left ?_))⟩
  calc (2 ^ (-149 : Int) : ℚ) = 2 ^ (-126 : Int) / 2 ^ 23 := by norm_num
    _ ≤ |q| / 2 ^ 23 := by gcongr; exact moderate.1

theorem kept_view32 {x : Float32} (finite : x.isFinite = true) : Kept .binary32 (view32 x) :=
  kept_unpack (by decide) finite

theorem near_of_kept {u : UnpackedFloat} {q : ℚ} (kept : Kept .binary32 u)
    (error : |value u - q| ≤ max (|q| / 2 ^ 23) (2 ^ (-149 : Int))) :
    Near (.ofModel (.pack u)) q := by
  have view : view32 (.ofModel (.pack u)) = u := kept.same
  refine ⟨?_, ?_⟩
  · show (view32 (.ofModel (.pack u))).isFinite = true
    rw [view]
    exact kept.finite
  · rw [view]
    exact error

theorem near_self {u : UnpackedFloat} (kept : Kept .binary32 u) :
    Near (.ofModel (.pack u)) (value u) := by
  refine near_of_kept kept ?_
  rw [sub_self, abs_zero]
  exact le_max_of_le_right (by positivity)

theorem near_round {m : Nat} {e : Int} (small : (m * 2 ^ e : ℚ) ≤ 2 ^ 126) (s : Sign) :
    Near (.ofModel (.pack (UnpackedFloat.round .binary32 s m e))) (s.apply 1 * (m * 2 ^ e)) := by
  rcases Nat.eq_zero_or_pos m with rfl | pos
  · rw [round_zero]
    simpa [value_zero] using near_self (kept_zero .binary32 s)
  · have high : totalExponent m e ≤ 126 + 1 := totalExponent_le pos (by exact_mod_cast small)
    obtain ⟨kept, error⟩ := @round_near .binary32 m e pos (by decide) high s
    refine near_of_kept kept (error.trans ?_)
    rw [abs_value]
    exact two_pow_target_le pos

theorem near_normalize {k e : Int} (small : |(k * 2 ^ e : ℚ)| ≤ 2 ^ 126) (zeroSign : Sign) :
    Near (.ofModel (.pack (UnpackedFloat.normalize .binary32 k e zeroSign))) (k * 2 ^ e) := by
  obtain ⟨rfl, zero⟩ | ⟨s, m, rfl, rounded⟩ := normalize_cases .binary32 k e zeroSign
  · rw [zero]
    simpa [value_zero] using near_self (kept_zero .binary32 zeroSign)
  · rw [apply_eq_mul, mul_assoc, Int.cast_natCast] at small ⊢
    rw [abs_value] at small
    rw [rounded]
    exact near_round small s

theorem Kept.add_near {u v : UnpackedFloat} (left : Kept .binary32 u) (right : Kept .binary32 v)
    (small : |value u + value v| ≤ 2 ^ 126) :
    Near (.ofModel (.pack (.add .binary32 u v))) (value u + value v) := by
  cases u with
  | notANumber | infinity s => cases left.finite
  | zero s =>
    rw [value_zero, zero_add]
    cases v with
    | notANumber | infinity t => cases right.finite
    | zero t =>
      cases s <;> cases t <;> exact near_self (kept_zero .binary32 _)
    | finite t n f => exact near_self right
  | finite s m e =>
    cases v with
    | notANumber | infinity t => cases right.finite
    | zero t =>
      rw [value_zero, add_zero]
      exact near_self left
    | finite t n f =>
      rw [value_finite, value_finite, ← aligned_sum] at small ⊢
      exact near_normalize small .positive

variable {x y : Float32}

theorem add_close (left : x.isFinite = true) (right : y.isFinite = true)
    (moderate : Moderate (value (view32 x) + value (view32 y))) :
    Close (x + y) (value (view32 x) + value (view32 y)) :=
  Near.close ((kept_view32 left).add_near (kept_view32 right) moderate.2) moderate

theorem value_neg (u : UnpackedFloat) : value u.neg = -value u := by
  cases u with
  | notANumber | infinity s | zero s => exact neg_zero.symm
  | finite s m e =>
    show (((-s).apply 1 : Int) * _ : ℚ) = -((s.apply 1 : Int) * _)
    cases s <;> simp [Sign.apply]

theorem sub_close (left : x.isFinite = true) (right : y.isFinite = true)
    (moderate : Moderate (value (view32 x) - value (view32 y))) :
    Close (x - y) (value (view32 x) - value (view32 y)) := by
  rw [sub_eq_add_neg, ← value_neg] at moderate ⊢
  have near := (kept_view32 left).add_near ((kept_view32 right).neg (by decide)) moderate.2
  rw [← unpacked_sub_eq] at near
  exact near.close moderate

theorem log2_of_view32 {x : Float32} {s : Sign} {m : Nat} {e : Int} {pos : 0 < m}
    (view : view32 x = .finite s m e pos) (large : (2 ^ (-126 : Int) : ℚ) ≤ |value (view32 x)|) :
    m.log2 + 1 = 24 := by
  rw [view, value_finite, abs_value] at large
  exact (normal_of_view32 view large).bits

/-- One factor with all of its bits gives the product bits enough. -/
theorem mul_near (left : x.isFinite = true) (right : y.isFinite = true)
    (large : (2 ^ (-126 : Int) : ℚ) ≤ |value (view32 x)| ∨
      (2 ^ (-126 : Int) : ℚ) ≤ |value (view32 y)|)
    (small : |value (view32 x) * value (view32 y)| ≤ 2 ^ 126) :
    Near (x * y) (value (view32 x) * value (view32 y)) := by
  have first := kept_view32 left
  have second := kept_view32 right
  have bits {s m e pos t n f pos'} (view : view32 x = .finite s m e pos)
      (view' : view32 y = .finite t n f pos') : 24 ≤ (m * n).log2 + 1 := by
    rcases large with large | large
    · have full := log2_of_view32 view large
      have longer : m.log2 ≤ (m * n).log2 := log2_le_mul pos'
      omega
    · have full := log2_of_view32 view' large
      have longer : n.log2 ≤ (n * m).log2 := log2_le_mul pos
      rw [Nat.mul_comm] at longer
      omega
  show Near (.ofModel (.pack (.mul .binary32 (view32 x) (view32 y)))) _
  generalize view32 x = u at *
  generalize view32 y = v at *
  cases u with
  | notANumber | infinity s => cases first.finite
  | zero s =>
    rw [value_zero, zero_mul]
    cases v with
    | notANumber | infinity t => cases second.finite
    | zero t | finite t => exact near_self (kept_zero .binary32 _)
  | finite s m e pos =>
    cases v with
    | notANumber | infinity t => cases second.finite
    | zero t =>
      rw [value_zero, mul_zero]
      exact near_self (kept_zero .binary32 _)
    | finite t n f pos' =>
      rw [value_finite, value_finite, product_value] at small ⊢
      rw [abs_value] at small
      have product : 0 < m * n := Nat.mul_pos pos pos'
      have high : totalExponent (m * n) (e + f) ≤ 126 + 1 :=
        totalExponent_le product (by exact_mod_cast small)
      obtain ⟨kept, error⟩ := @roundWithAccuracy_near .binary32 (m * n) (e + f) product (by decide)
        (fits_of_wide (bits rfl rfl)) high (s * t) .exact _ le_rfl (by linarith)
      refine near_of_kept kept (error.trans ?_)
      rw [abs_value]
      exact two_pow_target_le product

theorem mul_close (left : x.isFinite = true) (right : y.isFinite = true)
    (moderate : Moderate (value (view32 x)))
    (product : Moderate (value (view32 x) * value (view32 y))) :
    Close (x * y) (value (view32 x) * value (view32 y)) :=
  (mul_near left right (.inl moderate.1) product.2).close product

/-! ### The closest integer -/

theorem apply_apply (s : Sign) (n : Int) : s.apply (s.apply n) = n := by
  cases s <;> simp [Sign.apply]

theorem nearestInt64_finite (s : Sign) (m : Nat) (e : Int) (pos : 0 < m) :
    nearestInt64 (.finite s m e pos) = max Int64.minValue.toInt
      (min Int64.maxValue.toInt (s.apply ⌊(m * 2 ^ e : ℚ) + 1 / 2⌋₊)) := by
  have counted : Rounding.halfUp.divide (fraction (m * 1) e).1 (fraction (m * 1) e).2 =
      ⌊(m * 2 ^ e : ℚ) + 1 / 2⌋₊ := by
    rw [Nat.mul_one, halfUp_eq]
  rw [← counted]
  rfl

theorem nearestInt64_eq {u : UnpackedFloat} {n : Int} (finite : u.isFinite = true)
    (near : |value u - n| < 1 / 2) (small : n.natAbs < 2 ^ 63) : nearestInt64 u = n := by
  cases u with
  | notANumber | infinity s => cases finite
  | zero s =>
    rw [value_zero, zero_sub, abs_neg] at near
    have none : |n| < 1 := by
      have : (|n| : ℚ) < 1 := near.trans (by norm_num)
      exact_mod_cast this
    exact (Int.abs_lt_one_iff.1 none).symm
  | finite s m e pos =>
    rw [value_finite] at near
    rw [nearestInt64_finite]
    have nonneg := nonneg_value m e
    generalize (m * 2 ^ e : ℚ) = q at near nonneg
    -- the magnitude is as close to that of the integer as the value is to the integer
    have size : ⌊q + 1 / 2⌋₊ = s.apply n := by
      have distance : |q - (s.apply n : Int)| < 1 / 2 := by
        rwa [← abs_signed s, mul_sub, ← apply_eq_mul, apply_apply]
      obtain ⟨below, above⟩ := abs_lt.1 distance
      have some : 0 ≤ s.apply n := by
        have : (-1 : ℚ) < (s.apply n : Int) := by linarith
        exact Int.lt_iff_add_one_le.1 (by exact_mod_cast this)
      obtain ⟨k, same⟩ := Int.eq_ofNat_of_zero_le some
      rw [same] at below above ⊢
      push_cast at below above
      exact congrArg _ ((Nat.floor_eq_iff (by linarith)).2 ⟨by linarith, by linarith⟩)
    rw [size, apply_apply, show Int64.minValue.toInt = -2 ^ 63 from rfl,
      show Int64.maxValue.toInt = 2 ^ 63 - 1 from rfl]
    omega

/-! ### Dropping the fraction -/

theorem towardZero_eq (m : Nat) (e : Int) :
    Rounding.towardZero.divide (fraction m e).1 (fraction m e).2 = ⌊(m * 2 ^ e : ℚ)⌋₊ := by
  obtain ⟨pos, exact⟩ := fraction_value m e
  have quotient : (m * 2 ^ e : ℚ) = (fraction m e).1 / (fraction m e).2 := by
    rw [exact, mul_div_cancel_right₀]
    exact_mod_cast pos.ne'
  rw [quotient, Nat.floor_div_eq_div]
  rfl

theorem truncInt64_finite (s : Sign) (m : Nat) (e : Int) (pos : 0 < m) :
    truncInt64 (.finite s m e pos) = max Int64.minValue.toInt
      (min Int64.maxValue.toInt (s.apply ⌊(m * 2 ^ e : ℚ)⌋₊)) := by
  have counted : Rounding.towardZero.divide (fraction (m * 1) e).1 (fraction (m * 1) e).2 =
      ⌊(m * 2 ^ e : ℚ)⌋₊ := by
    rw [Nat.mul_one, towardZero_eq]
  rw [← counted]
  rfl

theorem abs_truncInt64_sub_lt {u : UnpackedFloat} (finite : u.isFinite = true)
    (small : |value u| < 2 ^ 63) : |truncInt64 u - value u| < 1 := by
  cases u with
  | notANumber | infinity s => cases finite
  | zero s =>
    show |((0 : Int) - 0 : ℚ)| < 1
    norm_num
  | finite s m e pos =>
    have nonneg := nonneg_value m e
    rw [value_finite, abs_value] at small
    have below := Nat.floor_le nonneg
    have above := Nat.lt_floor_add_one (m * 2 ^ e : ℚ)
    have short : ⌊(m * 2 ^ e : ℚ)⌋₊ < 2 ^ 63 := by exact_mod_cast below.trans_lt small
    rw [truncInt64_finite, value_finite, show Int64.minValue.toInt = -2 ^ 63 from rfl,
      show Int64.maxValue.toInt = 2 ^ 63 - 1 from rfl]
    have kept : max (-2 ^ 63) (min (2 ^ 63 - 1) (s.apply ⌊(m * 2 ^ e : ℚ)⌋₊)) =
        s.apply ⌊(m * 2 ^ e : ℚ)⌋₊ := by
      cases s <;> simp only [Sign.apply] <;> omega
    rw [kept, apply_eq_mul, ← mul_sub, abs_signed, Int.cast_natCast, abs_sub_lt_iff]
    exact ⟨by linarith, by linarith⟩

end RobotScript.Binary
