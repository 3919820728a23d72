import Mathlib
import RobotScript.Proofs.Number.Values

/-!
# Rounding what needs none

A value that a format holds goes through rounding and through its bits unchanged. So single
precision computes with whole numbers of up to 24 bits exactly.
-/

namespace RobotScript.Binary

open Float.Model (Format totalExponent UnpackedFloat)
open Float.Model.UnpackedFloat (Sign ExtendedMantissa roundWithAccuracy shiftToTargetExponent
  shiftToExponent decreaseExponent unpackExponent unpackMantissa)

/-! ### One value in two ways -/

theorem nonneg_value (m : Nat) (e : Int) : (0 : ℚ) ≤ m * 2 ^ e :=
  mul_nonneg (Nat.cast_nonneg m) (zpow_nonneg (by norm_num) e)

theorem pos_value {m : Nat} (pos : 0 < m) (e : Int) : (0 : ℚ) < m * 2 ^ e :=
  mul_pos (Nat.cast_pos.2 pos) (zpow_pos (by norm_num) e)

theorem same_value_cases {m n : Nat} {e f : Int} (same : (m * 2 ^ e : ℚ) = n * 2 ^ f) :
    (∃ k : Nat, e = f + k ∧ n = m * 2 ^ k) ∨ ∃ k : Nat, f = e + k ∧ m = n * 2 ^ k := by
  have two : (2 : ℚ) ≠ 0 := by norm_num
  rcases le_total f e with order | order
  · obtain ⟨k, rfl⟩ := Int.le.dest order
    refine .inl ⟨k, rfl, ?_⟩
    rw [zpow_add₀ two, zpow_natCast] at same
    have scaled : (m * 2 ^ k : ℚ) * 2 ^ f = n * 2 ^ f := by rw [← same]; ring
    exact_mod_cast (mul_right_cancel₀ (zpow_ne_zero f two) scaled).symm
  · obtain ⟨k, rfl⟩ := Int.le.dest order
    refine .inr ⟨k, rfl, ?_⟩
    rw [zpow_add₀ two, zpow_natCast] at same
    have scaled : (m : ℚ) * 2 ^ e = (n * 2 ^ k) * 2 ^ e := by rw [same]; ring
    exact_mod_cast mul_right_cancel₀ (zpow_ne_zero e two) scaled

theorem log2_mul_two_pow {m : Nat} (pos : 0 < m) (k : Nat) : (m * 2 ^ k).log2 = m.log2 + k := by
  induction k with
  | zero => simp
  | succ k ih =>
    have nonzero : m * 2 ^ k ≠ 0 := (Nat.mul_pos pos (Nat.two_pow_pos k)).ne'
    rw [show m * 2 ^ (k + 1) = 2 * (m * 2 ^ k) by ring, Nat.log2_two_mul nonzero, ih, Nat.add_assoc]

theorem totalExponent_scaled {m : Nat} (pos : 0 < m) (k : Nat) (e : Int) :
    totalExponent (m * 2 ^ k) e = totalExponent m (e + k) := by
  unfold totalExponent
  rw [log2_mul_two_pow pos]
  push_cast
  ring

/-! ### Exponents -/

theorem exponent_range (format : Format) :
    2 ^ format.exponentBits = 2 * format.exponentBias + 2 := by
  have some := format.he
  have pos : 0 < 2 ^ (format.exponentBits - 1) := Nat.two_pow_pos _
  have double := Nat.two_pow_pred_mul_two some
  unfold Format.exponentBias
  omega

theorem minExponent_eq (format : Format) :
    format.minExponent = 1 - (format.exponentBias : Int) - format.mantissaBitsWithoutImplicit := by
  have pos : 1 ≤ 2 ^ (format.exponentBits - 1) := Nat.one_le_two_pow
  unfold Format.minExponent Format.exponentBias Format.mantissaBits
  push_cast [pos]
  ring

/-! ### Rounding -/

section Rounding

variable {format : Format} {m n : Nat} {e f : Int}

/-- `m · 2 ^ e` is written as the format holds it. -/
structure Canonical (format : Format) (m : Nat) (e : Int) : Prop where
  pos : 0 < m
  target : format.targetExponent (totalExponent m e) = e
  high : e ≤ (format.exponentBias : Int) - format.mantissaBitsWithoutImplicit

/-- `m · 2 ^ e` is written as the format holds it, with no bit of the mantissa to spare. -/
structure Normal (format : Format) (m : Nat) (e : Int) : Prop where
  bits : m.log2 + 1 = format.mantissaBits
  low : format.minExponent ≤ e
  high : e ≤ (format.exponentBias : Int) - format.mantissaBitsWithoutImplicit

theorem Normal.pos (normal : Normal format m e) : 0 < m := by
  refine Nat.pos_of_ne_zero ?_
  rintro rfl
  have bits := normal.bits
  have some := format.hm
  rw [Nat.log2_zero, Format.mantissaBits] at bits
  omega

theorem Normal.canonical (normal : Normal format m e) : Canonical format m e := by
  refine ⟨normal.pos, ?_, normal.high⟩
  have bits := normal.bits
  have low := normal.low
  unfold Format.targetExponent totalExponent
  omega

theorem Canonical.low (canonical : Canonical format m e) : format.minExponent ≤ e := by
  rw [← canonical.target]
  exact le_max_right _ _

theorem Canonical.lt_two_pow (canonical : Canonical format m e) : m < 2 ^ format.mantissaBits := by
  have target := canonical.target
  unfold Format.targetExponent totalExponent at target
  exact (Nat.log2_lt canonical.pos.ne').1 (by omega)

/-- Only at the least exponent of all may bits be missing. -/
theorem Canonical.normal_or_least (canonical : Canonical format m e) :
    Normal format m e ∨
      m < 2 ^ format.mantissaBitsWithoutImplicit ∧ e = format.minExponent := by
  have target := canonical.target
  unfold Format.targetExponent totalExponent at target
  rcases Nat.lt_or_ge (m.log2 + 1) format.mantissaBits with short | long
  · refine .inr ⟨(Nat.log2_lt canonical.pos.ne').1 ?_, by omega⟩
    rw [Format.mantissaBits] at short
    omega
  · exact .inl ⟨by omega, by omega, canonical.high⟩

theorem canonical_least (pos : 0 < m) (short : m < 2 ^ format.mantissaBitsWithoutImplicit)
    (some : 0 < format.exponentBias) : Canonical format m format.minExponent := by
  have bits := (Nat.log2_lt pos.ne').2 short
  have least := minExponent_eq format
  refine ⟨pos, ?_, by omega⟩
  unfold Format.targetExponent totalExponent Format.mantissaBits
  omega

theorem shiftRight_scaled (m k : Nat) :
    (⟨m * 2 ^ k, false, false⟩ : ExtendedMantissa) >>> k = ⟨m, false, false⟩ := by
  show k.repeat ExtendedMantissa.shiftRightOne _ = _
  induction k generalizing m with
  | zero => simp [Nat.repeat]
  | succ k ih =>
    rw [Nat.repeat, show m * 2 ^ (k + 1) = m * 2 * 2 ^ k by ring, ih]
    simp [ExtendedMantissa.shiftRightOne]

/-- Bits that are shifted out beyond the last place of the format are zero, so nothing is lost. -/
theorem Canonical.shift_eq (canonical : Canonical format m e) (k : Nat) :
    shiftToTargetExponent format (m * 2 ^ k) (e - k) .exact = (⟨m, false, false⟩, e) := by
  unfold shiftToTargetExponent shiftToExponent ExtendedMantissa.ofMantissaAndAccuracy
  rw [totalExponent_scaled canonical.pos, Int.sub_add_cancel, canonical.target]
  have amount : (e - (e - k)).toNat = k := by omega
  simp only [amount, shiftRight_scaled, Int.sub_add_cancel]

theorem Canonical.roundWithAccuracy_eq (canonical : Canonical format m e) (s : Sign) (k : Nat) :
    roundWithAccuracy format s (m * 2 ^ k) (e - k) .exact = .finite s m e canonical.pos := by
  have once := canonical.shift_eq 0
  rw [Nat.pow_zero, Nat.mul_one, Int.natCast_zero, Int.sub_zero] at once
  unfold roundWithAccuracy
  rw [canonical.shift_eq k]
  dsimp only
  rw [show (⟨m, false, false⟩ : ExtendedMantissa).roundedMantissa = m from rfl, once]
  exact dif_neg canonical.pos.ne'

theorem Canonical.round_eq (canonical : Canonical format n f)
    (same : (m * 2 ^ e : ℚ) = n * 2 ^ f) (s : Sign) :
    UnpackedFloat.round format s m e = .finite s n f canonical.pos := by
  unfold UnpackedFloat.round decreaseExponent
  have target := canonical.target
  obtain ⟨k, rfl, rfl⟩ | ⟨k, rfl, rfl⟩ := same_value_cases same
  · have pos : 0 < m := Nat.pos_of_mul_pos_right canonical.pos
    have exact := canonical.roundWithAccuracy_eq s 0
    rw [totalExponent_scaled pos] at target
    rw [Nat.pow_zero, Nat.mul_one, Int.natCast_zero, Int.sub_zero] at exact
    have amount : (f + k - f).toNat = k := by omega
    simp only [target, amount, Nat.shiftLeft_eq, Int.add_sub_cancel]
    exact exact
  · have exact := canonical.roundWithAccuracy_eq s k
    rw [Int.add_sub_cancel] at exact
    have amount : (e - (e + k)).toNat = 0 := by omega
    simp only [totalExponent_scaled canonical.pos, target, amount, Nat.shiftLeft_zero,
      Int.natCast_zero, Int.sub_zero]
    exact exact

/-- A mantissa with bits enough is not filled up. -/
theorem round_of_wide (wide : format.mantissaBits ≤ m.log2 + 1) (s : Sign) :
    UnpackedFloat.round format s m e = roundWithAccuracy format s m e .exact := by
  have amount : (e - format.targetExponent (totalExponent m e)).toNat = 0 := by
    unfold Format.targetExponent totalExponent
    omega
  unfold UnpackedFloat.round decreaseExponent
  simp only [amount, Nat.shiftLeft_zero, Int.natCast_zero, Int.sub_zero]

theorem shift_zero (format : Format) (e : Int) :
    (shiftToTargetExponent format 0 e .exact).1 = ⟨0, false, false⟩ := by
  have zeros (k : Nat) := shiftRight_scaled 0 k
  simp only [Nat.zero_mul] at zeros
  exact zeros _

theorem round_zero (format : Format) (s : Sign) (e : Int) :
    UnpackedFloat.round format s 0 e = .zero s := by
  unfold UnpackedFloat.round decreaseExponent roundWithAccuracy
  simp only [Nat.zero_shiftLeft, shift_zero]
  exact dif_pos (congrArg ExtendedMantissa.mantissa (shift_zero _ _))

theorem normalize_cases (format : Format) (k e : Int) (zeroSign : Sign) :
    k = 0 ∧ UnpackedFloat.normalize format k e zeroSign = .zero zeroSign ∨
      ∃ (s : Sign) (m : Nat), k = s.apply m ∧
        UnpackedFloat.normalize format k e zeroSign = UnpackedFloat.round format s m e := by
  unfold UnpackedFloat.normalize
  split
  · rename_i order
    have negative := compare_lt_iff_lt.1 order
    exact .inr ⟨.negative, _, by rw [Sign.apply]; omega, rfl⟩
  · rename_i order
    exact .inl ⟨compare_eq_iff_eq.1 order, rfl⟩
  · rename_i order
    have positive := compare_gt_iff_gt.1 order
    exact .inr ⟨.positive, _, by rw [Sign.apply]; omega, rfl⟩

end Rounding

/-! ### Bits -/

section Bits

variable {format : Format} {m : Nat} {e : Int}

theorem toNat_append_one {n : Nat} (x : BitVec n) : (1#1 ++ x).toNat = 2 ^ n + x.toNat := by
  rw [BitVec.toNat_append, ← Nat.shiftLeft_add_eq_or_of_lt x.isLt]
  simp [Nat.shiftLeft_eq]

/-- The leading bit is left out and put back. -/
theorem Normal.unpack_pack (normal : Normal format m e) (s : Sign) :
    UnpackedFloat.unpack format (UnpackedFloat.pack format (.finite s m e normal.pos)) =
      .finite s m e normal.pos := by
  have low := normal.low
  have high := normal.high
  have range := exponent_range format
  rw [minExponent_eq] at low
  generalize stored : (e + format.exponentBias + format.mantissaBitsWithoutImplicit).toNat = b
  have inside : b < 2 ^ format.exponentBits := by omega
  have exponent : (BitVec.ofNat format.exponentBits b).toNat = b := by
    rw [BitVec.toNat_ofNat, Nat.mod_eq_of_lt inside]
  have finite : BitVec.ofNat format.exponentBits b ≠ -1#_ := by
    intro ones
    rw [ones, BitVec.neg_one_eq_allOnes, BitVec.toNat_allOnes] at exponent
    omega
  have nonzero : BitVec.ofNat format.exponentBits b ≠ 0#_ := by
    intro zero
    rw [zero, BitVec.toNat_zero] at exponent
    omega
  have bits := normal.bits
  rw [Format.mantissaBits, Nat.add_comm] at bits
  obtain ⟨leading, short⟩ := (Nat.log2_eq_iff normal.pos.ne').1 (Nat.add_left_cancel bits)
  rw [Nat.pow_succ] at short
  have mantissa : (1#1 ++ BitVec.ofNat format.mantissaBitsWithoutImplicit m).toNat = m := by
    rw [toNat_append_one, BitVec.toNat_ofNat, Nat.mod_eq_sub_mod leading,
      Nat.mod_eq_of_lt (by omega)]
    omega
  unfold UnpackedFloat.pack
  simp only [stored]
  rw [if_neg (by omega), if_pos normal.bits]
  unfold UnpackedFloat.unpack
  simp only [UnpackedFloat.unpackMantissa_packComponents,
    UnpackedFloat.unpackExponent_packComponents, UnpackedFloat.unpackSign_packComponents,
    Sign.ofBitVec_toBitVec, exponent, mantissa]
  rw [if_neg finite, if_neg nonzero]
  congr 1
  omega

/-- At the least exponent a missing leading bit is not put back. -/
theorem unpack_pack_least (pos : 0 < m) (short : m < 2 ^ format.mantissaBitsWithoutImplicit)
    (some : 0 < format.exponentBias) (s : Sign) :
    UnpackedFloat.unpack format (UnpackedFloat.pack format (.finite s m format.minExponent pos)) =
      .finite s m format.minExponent pos := by
  have range := exponent_range format
  have least := minExponent_eq format
  have bits := (Nat.log2_lt pos.ne').2 short
  have mantissa : (BitVec.ofNat format.mantissaBitsWithoutImplicit m).toNat = m := by
    rw [BitVec.toNat_ofNat, Nat.mod_eq_of_lt short]
  have finite : (0#_ : BitVec format.exponentBits) ≠ -1#_ := by
    intro ones
    have none := congrArg BitVec.toNat ones
    rw [BitVec.neg_one_eq_allOnes, BitVec.toNat_allOnes, BitVec.toNat_zero] at none
    omega
  have nonzero : BitVec.ofNat format.mantissaBitsWithoutImplicit m ≠ 0#_ := by
    intro zero
    rw [zero, BitVec.toNat_zero] at mantissa
    omega
  unfold UnpackedFloat.pack
  dsimp only
  rw [if_neg (by omega), if_neg (by rw [Format.mantissaBits]; omega)]
  unfold UnpackedFloat.unpack
  simp only [UnpackedFloat.unpackMantissa_packComponents,
    UnpackedFloat.unpackExponent_packComponents, UnpackedFloat.unpackSign_packComponents,
    Sign.ofBitVec_toBitVec, mantissa, BitVec.toNat_zero]
  rw [if_neg finite, if_pos trivial, dif_neg nonzero]
  congr 1
  omega

/-- The finite number `u` goes through the bits of the format unchanged. -/
structure Kept (format : Format) (u : UnpackedFloat) : Prop where
  finite : u.isFinite = true
  same : UnpackedFloat.unpack format (UnpackedFloat.pack format u) = u

theorem kept_zero (format : Format) (s : Sign) : Kept format (.zero s) := by
  refine ⟨rfl, ?_⟩
  have some := format.he
  unfold UnpackedFloat.pack UnpackedFloat.packedZero UnpackedFloat.unpack
  simp [BitVec.neg_one_eq_allOnes, some.ne']

theorem Canonical.kept (canonical : Canonical format m e) (s : Sign) :
    Kept format (.finite s m e canonical.pos) := by
  refine ⟨rfl, ?_⟩
  obtain normal | ⟨short, rfl⟩ := canonical.normal_or_least
  · exact normal.unpack_pack s
  · have high := canonical.high
    have least := minExponent_eq format
    exact unpack_pack_least canonical.pos short (by omega) s

/-- A finite number is normal, or its leading bit is missing and its exponent is the least. -/
theorem normal_of_unpack {b : BitVec format.numBits} {s : Sign} {pos : 0 < m}
    (view : UnpackedFloat.unpack format b = .finite s m e pos) :
    Normal format m e ∨ m < 2 ^ format.mantissaBitsWithoutImplicit ∧ e = format.minExponent := by
  have inside := (unpackExponent b).isLt
  have short := (unpackMantissa b).isLt
  have range := exponent_range format
  have least := minExponent_eq format
  rw [UnpackedFloat.unpack] at view
  split at view
  · split at view <;> cases view
  · rename_i finite
    rw [← BitVec.toNat_inj, BitVec.neg_one_eq_allOnes, BitVec.toNat_allOnes] at finite
    split at view
    · rename_i low
      split at view
      · cases view
      · injection view with _ mantissa exponent
        rw [low, BitVec.toNat_zero] at exponent
        exact .inr ⟨mantissa ▸ short, by omega⟩
    · rename_i high
      rw [← BitVec.toNat_inj, BitVec.toNat_zero] at high
      injection view with _ mantissa exponent
      rw [toNat_append_one] at mantissa
      have bits : m.log2 = format.mantissaBitsWithoutImplicit := by
        rw [Nat.log2_eq_iff pos.ne', Nat.pow_succ]
        omega
      exact .inl ⟨by rw [bits, Format.mantissaBits, Nat.add_comm], by omega, by omega⟩

theorem canonical_of_unpack {b : BitVec format.numBits} {s : Sign} {pos : 0 < m}
    (some : 0 < format.exponentBias)
    (view : UnpackedFloat.unpack format b = .finite s m e pos) : Canonical format m e := by
  obtain normal | ⟨short, rfl⟩ := normal_of_unpack view
  · exact normal.canonical
  · exact canonical_least pos short some

theorem kept_unpack {b : BitVec format.numBits} (some : 0 < format.exponentBias)
    (finite : (UnpackedFloat.unpack format b).isFinite = true) :
    Kept format (UnpackedFloat.unpack format b) := by
  cases view : UnpackedFloat.unpack format b with
  | notANumber | infinity s => rw [view] at finite; cases finite
  | zero s => exact kept_zero format s
  | finite s m e pos => exact (canonical_of_unpack some view).kept s

theorem Kept.neg {u : UnpackedFloat} (kept : Kept format u) (some : 0 < format.exponentBias) :
    Kept format u.neg := by
  cases u with
  | notANumber | infinity s => cases kept.finite
  | zero s => exact kept_zero format (-s)
  | finite s m e pos => exact (canonical_of_unpack some kept.same).kept (-s)

end Bits

/-- Numbers that the leading bit is missing from are less than all others. -/
theorem normal_of_view32 {x : Float32} {s : Sign} {m : Nat} {e : Int} {pos : 0 < m}
    (view : view32 x = .finite s m e pos) (large : (2 ^ (-126 : Int) : ℚ) ≤ m * 2 ^ e) :
    Normal .binary32 m e := by
  obtain normal | ⟨short, rfl⟩ := normal_of_unpack view
  · exact normal
  · refine absurd large (not_le.2 ?_)
    have below : (m : ℚ) < 2 ^ 23 := by exact_mod_cast short
    calc (m : ℚ) * 2 ^ (-149 : Int) < 2 ^ 23 * 2 ^ (-149 : Int) := by gcongr
      _ = 2 ^ (-126 : Int) := by norm_num

end RobotScript.Binary
