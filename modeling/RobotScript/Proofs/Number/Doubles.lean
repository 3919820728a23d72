import RobotScript.Proofs.Number.Accuracy

/-!
# Counting in double precision

What double precision makes of the product and of the quotient of two positive numbers: the result
exceeds the exact value by at most one part in `2 ^ 52`, and reaches every number of the format that
the exact value reaches.
-/

namespace RobotScript.Binary

open Float.Model (Format totalExponent UnpackedFloat)
open Float.Model.UnpackedFloat (Sign Accuracy roundWithAccuracy divCore
  accuracyOfFraction)

/-! ### Rounding -/

section Rounding

variable {format : Format} {m n : Nat} {e f : Int}

/-- Rounding does not go below a number that the format has. -/
theorem le_value_roundWithAccuracy (pos : 0 < m) (some : 0 < format.exponentBias)
    (fits : e ≤ format.targetExponent (totalExponent m e))
    (high : totalExponent m e ≤ format.exponentBias) (accuracy : Accuracy) {x : ℚ}
    (above : x < m + 1) (held : Canonical format n f) (reached : (n * 2 ^ f : ℚ) ≤ x * 2 ^ e) :
    (n * 2 ^ f : ℚ) ≤ value (roundWithAccuracy format .positive m e accuracy) := by
  have bits : format.mantissaBits = format.mantissaBitsWithoutImplicit + 1 := Nat.add_comm _ _
  have two : (2 : ℚ) ≠ 0 := by norm_num
  obtain ⟨k, r, target, cut, -, rounded⟩ :=
    roundWithAccuracy_cut pos some fits high .positive accuracy
  have least : m / 2 ^ k ≤ r := by omega
  rw [rounded, Sign.apply, Int.cast_one, one_mul]
  rcases le_or_gt (e + k) f with coarse | fine
  · -- the number is a multiple of the last place
    obtain ⟨j, rfl⟩ := Int.le.dest coarse
    have unit : (0 : ℚ) < 2 ^ e := zpow_pos (by norm_num) e
    have multiple : (n * 2 ^ (e + k + j) : ℚ) = (n * 2 ^ j * 2 ^ k) * 2 ^ e := by
      rw [zpow_add₀ two, zpow_add₀ two, zpow_natCast, zpow_natCast]
      ring
    rw [multiple] at reached
    have whole : n * 2 ^ j * 2 ^ k < m + 1 := by
      have := (le_of_mul_le_mul_right reached unit).trans_lt above
      exact_mod_cast this
    have counted : n * 2 ^ j ≤ r :=
      ((Nat.le_div_iff_mul_le (Nat.two_pow_pos k)).2 (Nat.le_of_lt_succ whole)).trans least
    rw [zpow_add₀ two (e + k), zpow_natCast, mul_comm ((2 : ℚ) ^ (e + k)), ← mul_assoc]
    gcongr
    exact_mod_cast counted
  · -- the number has fewer digits before the last place than the value
    have bottom := held.low
    have place := target
    unfold Format.targetExponent totalExponent at place
    have leading : 2 ^ format.mantissaBitsWithoutImplicit ≤ r := by
      refine le_trans ?_ least
      rw [Nat.le_div_iff_mul_le (Nat.two_pow_pos k), ← Nat.pow_add]
      exact (Nat.pow_le_pow_right (by decide) (by omega)).trans (Nat.log2_self_le pos.ne')
    have short : (n : ℚ) ≤ 2 ^ format.mantissaBits := by exact_mod_cast held.lt_two_pow.le
    calc (n : ℚ) * 2 ^ f ≤ 2 ^ format.mantissaBits * 2 ^ f := by gcongr
      _ = 2 ^ ((format.mantissaBits : Int) + f) := by rw [zpow_add₀ two, zpow_natCast]
      _ ≤ 2 ^ ((format.mantissaBitsWithoutImplicit : Int) + (e + k)) :=
        zpow_le_zpow_right₀ (by norm_num) (by omega)
      _ = 2 ^ format.mantissaBitsWithoutImplicit * 2 ^ (e + k) := by
        rw [zpow_add₀ two, zpow_natCast]
      _ ≤ r * 2 ^ (e + k) := by
        gcongr
        exact_mod_cast leading

/-- A division goes on until the quotient has all bits that the format has room for. -/
theorem divCore_bits (pos : 0 < m) (pos' : 0 < n)
    (low : format.minExponent + format.mantissaBits ≤ totalExponent m e - totalExponent n f) :
    ∃ q t accuracy x, divCore format m e n f = (q, t, accuracy) ∧
      format.mantissaBits ≤ q.log2 + 1 ∧ (q : ℚ) ≤ x ∧ x < q + 1 ∧
      x * 2 ^ t = m * 2 ^ e / (n * 2 ^ f) := by
  have bits : format.mantissaBits = format.mantissaBitsWithoutImplicit + 1 := Nat.add_comm _ _
  have two : (2 : ℚ) ≠ 0 := by norm_num
  generalize target : min (e - f)
    (format.targetExponent (totalExponent m e - totalExponent n f)) = t
  obtain ⟨j, shift⟩ := Int.le.dest (show t ≤ e - f by omega)
  have amount : (e - f - t).toNat = j := by omega
  refine ⟨m * 2 ^ j / n, t, accuracyOfFraction (m * 2 ^ j % n) n, (m * 2 ^ j : ℚ) / n,
    ?_, ?_, ?_, ?_, ?_⟩
  · unfold divCore
    simp only [target, amount, Nat.shiftLeft_eq]
  · have leading : 2 ^ format.mantissaBitsWithoutImplicit ≤ m * 2 ^ j / n := by
      unfold Format.targetExponent at target
      unfold totalExponent at target low
      rw [Nat.le_div_iff_mul_le pos']
      calc 2 ^ format.mantissaBitsWithoutImplicit * n
          ≤ 2 ^ format.mantissaBitsWithoutImplicit * 2 ^ (n.log2 + 1) := by
            gcongr
            exact Nat.lt_log2_self.le
        _ = 2 ^ (format.mantissaBitsWithoutImplicit + (n.log2 + 1)) := (Nat.pow_add ..).symm
        _ ≤ 2 ^ (m.log2 + j) := Nat.pow_le_pow_right (by decide) (by omega)
        _ = 2 ^ m.log2 * 2 ^ j := Nat.pow_add ..
        _ ≤ m * 2 ^ j := by
          gcongr
          exact Nat.log2_self_le pos.ne'
    have some := (Nat.two_pow_pos _).trans_le leading
    have long := (Nat.le_log2 some.ne').2 leading
    omega
  · exact_mod_cast Nat.cast_div_le
  · rw [div_lt_iff₀ (by exact_mod_cast pos'), mul_comm _ (n : ℚ)]
    exact_mod_cast Nat.lt_mul_div_succ (m * 2 ^ j) pos'
  · have power : (2 ^ j * 2 ^ t : ℚ) = 2 ^ e / 2 ^ f := by
      rw [← zpow_natCast, ← zpow_add₀ two, ← zpow_sub₀ two, add_comm, shift]
    rw [div_mul_eq_mul_div, mul_assoc, power]
    field_simp

end Rounding

/-! ### Operations -/

/-- What rounding may make of the positive value `q`. -/
structure Rounds (u : UnpackedFloat) (q : ℚ) : Prop where
  kept : Kept .binary64 u
  above : value u ≤ q + q / 2 ^ 52
  reaches {n : Nat} {f : Int} (held : Canonical .binary64 n f) (reached : (n * 2 ^ f : ℚ) ≤ q) :
    (n * 2 ^ f : ℚ) ≤ value u

section Rounds

variable {u v : UnpackedFloat}

theorem finite_of_pos (some : 0 < value u) :
    ∃ m e pos, u = .finite .positive m e pos ∧ value u = m * 2 ^ e := by
  cases u with
  | notANumber | infinity s | zero s => exact absurd some (lt_irrefl 0)
  | finite s m e pos =>
    have size := nonneg_value m e
    cases s with
    | positive => exact ⟨m, e, pos, rfl, by rw [value_finite, Sign.apply, Int.cast_one, one_mul]⟩
    | negative =>
      rw [value_finite, Sign.apply] at some
      push_cast at some
      linarith

theorem one_le_totalExponent {m : Nat} {e : Int} (large : (1 : ℚ) ≤ m * 2 ^ e) :
    1 ≤ totalExponent m e := by
  have above : (m : ℚ) < 2 ^ (m.log2 + 1) := by exact_mod_cast Nat.lt_log2_self
  have unit : (0 : ℚ) < 2 ^ e := zpow_pos (by norm_num) e
  have order : (0 : Int) < ((m.log2 + 1 : Nat) : Int) + e := by
    rw [← zpow_lt_zpow_iff_right₀ (show (1 : ℚ) < 2 by norm_num), zpow_zero,
      zpow_add₀ (by norm_num), zpow_natCast]
    exact large.trans_lt (mul_lt_mul_of_pos_right above unit)
  unfold totalExponent
  omega

/-- A rounded value that is not too small. -/
theorem rounds_roundWithAccuracy {m : Nat} {e : Int} {x : ℚ} (wide : 53 ≤ m.log2 + 1)
    (low : (2 ^ (-200 : Int) : ℚ) ≤ x * 2 ^ e) (high : x * 2 ^ e ≤ 2 ^ 200)
    (below : m ≤ x) (above : x < m + 1) (accuracy : Accuracy) :
    Rounds (roundWithAccuracy .binary64 .positive m e accuracy) (x * 2 ^ e) := by
  have pos : 0 < m := by
    refine Nat.pos_of_ne_zero ?_
    rintro rfl
    simp at wide
  have unit : (0 : ℚ) < 2 ^ e := zpow_pos (by norm_num) e
  have size : (m * 2 ^ e : ℚ) ≤ x * 2 ^ e := mul_le_mul_of_nonneg_right below unit.le
  have most : totalExponent m e ≤ 200 + 1 :=
    totalExponent_le pos (by exact_mod_cast size.trans high)
  have most : totalExponent m e ≤ Format.binary64.exponentBias := most.trans (by decide)
  have fits : e ≤ Format.binary64.targetExponent (totalExponent m e) := fits_of_wide wide
  obtain ⟨kept, error⟩ := roundWithAccuracy_near pos (by decide) fits most .positive accuracy below
    above.le
  refine ⟨kept, ?_, fun held reached =>
    le_value_roundWithAccuracy pos (by decide) fits most accuracy above held reached⟩
  have unitError : (2 ^ Format.binary64.targetExponent (totalExponent m e) : ℚ) ≤
      x * 2 ^ e / 2 ^ 52 := by
    refine (two_pow_target_le pos).trans (max_le ?_ ?_)
    · gcongr
    · calc (2 ^ (-1074 : Int) : ℚ) ≤ 2 ^ (-252 : Int) :=
            zpow_le_zpow_right₀ (by norm_num) (by norm_num)
        _ = 2 ^ (-200 : Int) / 2 ^ 52 := by norm_num
        _ ≤ x * 2 ^ e / 2 ^ 52 := by gcongr
  rw [Sign.apply, Int.cast_one, one_mul] at error
  linarith [(abs_le.1 error).2]

theorem mul_rounds (left : Kept .binary64 u) (large : 1 ≤ value u) (large' : 1 ≤ value v)
    (high : value u * value v ≤ 2 ^ 200) :
    Rounds (.mul .binary64 u v) (value u * value v) := by
  obtain ⟨m, e, pos, rfl, exact⟩ := finite_of_pos (zero_lt_one.trans_le large)
  obtain ⟨n, f, pos', rfl, exact'⟩ := finite_of_pos (zero_lt_one.trans_le large')
  have product : value (.finite .positive m e pos) * value (.finite .positive n f pos') =
      (m * n : Nat) * 2 ^ (e + f) := by
    rw [exact, exact', zpow_add₀ (by norm_num)]
    push_cast
    ring
  have bits : m.log2 + 1 = 53 := by
    obtain normal | ⟨short, rfl⟩ := (canonical_of_unpack (by decide) left.same).normal_or_least
    · exact normal.bits
    · have total := one_le_totalExponent (exact ▸ large)
      have bound : m.log2 < 52 := (Nat.log2_lt pos.ne').2 short
      have least : Format.minExponent .binary64 = -1074 := by decide
      unfold totalExponent at total
      rw [least] at total
      omega
  have longer : m.log2 ≤ (m * n).log2 := log2_le_mul pos'
  have one : (1 : ℚ) ≤ value (.finite .positive m e pos) * value (.finite .positive n f pos') :=
    one_le_mul_of_one_le_of_one_le large large'
  rw [product] at high one ⊢
  exact rounds_roundWithAccuracy (by omega) (le_trans (by norm_num) one) high le_rfl (by linarith)
    .exact

theorem div_rounds (large : 1 ≤ value u) (large' : 1 ≤ value v) (high : value u ≤ 2 ^ 200)
    (high' : value v ≤ 2 ^ 64) : Rounds (.div .binary64 u v) (value u / value v) := by
  obtain ⟨m, e, pos, rfl, exact⟩ := finite_of_pos (zero_lt_one.trans_le large)
  obtain ⟨n, f, pos', rfl, exact'⟩ := finite_of_pos (zero_lt_one.trans_le large')
  rw [exact] at large high ⊢
  rw [exact'] at large' high' ⊢
  have total := one_le_totalExponent large
  have total' : totalExponent n f ≤ 64 + 1 := totalExponent_le pos' (by exact_mod_cast high')
  have least : Format.minExponent .binary64 + Format.mantissaBits .binary64 ≤ -1021 := by decide
  obtain ⟨q, t, accuracy, x, core, wide, below, above, quotient⟩ :=
    @divCore_bits .binary64 m n e f pos pos' (by omega)
  have low : (2 ^ (-200 : Int) : ℚ) ≤ m * 2 ^ e / (n * 2 ^ f) := by
    rw [le_div_iff₀ (by linarith)]
    calc (2 ^ (-200 : Int) : ℚ) * (n * 2 ^ f) ≤ 2 ^ (-200 : Int) * 2 ^ 64 := by gcongr
      _ ≤ 1 := by norm_num
      _ ≤ m * 2 ^ e := large
  have small : (m * 2 ^ e : ℚ) / (n * 2 ^ f) ≤ 2 ^ 200 :=
    (div_le_self (by linarith) large').trans high
  rw [← quotient] at low small ⊢
  show Rounds (match divCore .binary64 m e n f with
    | (m, e, accuracy) => roundWithAccuracy .binary64 (.positive / .positive) m e accuracy) _
  rw [core]
  exact rounds_roundWithAccuracy wide low small below above accuracy

end Rounds

/-! ### Numbers -/

theorem view64_packed {u : UnpackedFloat} (kept : Kept .binary64 u) :
    view64 (.ofModel (.pack u)) = u := kept.same

theorem view64_ofNat {n : Nat} (pos : 0 < n) (small : n < 2 ^ 53) :
    Kept .binary64 (view64 (Float.ofNat n)) ∧ value (view64 (Float.ofNat n)) = n := by
  obtain ⟨m, e, normal, exact⟩ :=
    @exists_normal .binary64 n 0 pos small.le (by decide) (by decide)
  rw [zpow_zero, mul_one] at exact
  have canonical := normal.canonical
  have converted : view64 n.toUInt64.toFloat = .finite .positive m e normal.pos := by
    have kept : n.toUInt64.toNat = n := by
      rw [Nat.toUInt64_eq, UInt64.toNat_ofNat_of_lt' (small.trans (by decide))]
    show view64 (.ofModel (.pack (.normalize .binary64 n.toUInt64.toNat 0 .positive))) = _
    rw [kept, show UnpackedFloat.normalize .binary64 n 0 .positive =
      UnpackedFloat.round .binary64 .positive n 0 from by
        unfold UnpackedFloat.normalize
        rw [Int.compare_eq_gt.2 (by omega)]
        rfl]
    rw [canonical.round_eq (by rw [zpow_zero, mul_one]; exact exact.symm)]
    exact view64_packed (canonical.kept .positive)
  have one : view64 Float.exactlyRepresentablePowersOfTen[0] =
      .finite .positive (2 ^ 52) (-52) (by decide) := rfl
  have view : view64 (Float.ofNat n) = .finite .positive m e normal.pos := by
    show view64 (Float.ofScientific n false 0) = _
    unfold Float.ofScientific
    rw [dif_pos ⟨small, by decide⟩]
    show view64 (.ofModel (.pack (.mul .binary64 (view64 n.toUInt64.toFloat)
      (view64 Float.exactlyRepresentablePowersOfTen[0])))) = _
    rw [converted, one]
    show view64 (.ofModel (.pack (roundWithAccuracy .binary64 .positive (m * 2 ^ 52)
      (e - (52 : Nat)) .exact))) = _
    rw [canonical.roundWithAccuracy_eq .positive 52]
    exact view64_packed (canonical.kept .positive)
  rw [view, value_finite, Sign.apply, Int.cast_one, one_mul]
  exact ⟨canonical.kept .positive, exact⟩

end RobotScript.Binary
