import RobotScript.Proofs.Number.Rounding

/-!
# Whole numbers in single precision

Sums, differences and remainders of whole numbers are exact as long as the result has at most 24
bits. The operations are followed through the views of numbers, where `Stored` keeps what packing
needs to know.
-/

namespace RobotScript.Binary

open Float.Model (Format UnpackedFloat)
open Float.Model.UnpackedFloat (Sign)

/-- The number `x` is the whole number `n`. -/
def Whole (x : Float32) (n : Int) : Prop := x.isFinite = true ∧ value (view32 x) = n

/-- A view of the whole number `n` as single precision has it. -/
inductive Stored : UnpackedFloat → Int → Prop
  | zero (s : Sign) : Stored (.zero s) 0
  | normal {m : Nat} {e n : Int} (s : Sign) (normal : Normal .binary32 m e)
      (exact : (s.apply 1 * (m * 2 ^ e) : ℚ) = n) : Stored (.finite s m e normal.pos) n

theorem apply_eq_mul (s : Sign) (k : Int) : (s.apply k : ℚ) = s.apply 1 * k := by
  cases s <;> simp [Sign.apply]

/-- A sign and a magnitude make up a whole number in one way. -/
theorem signed_eq {s : Sign} {q : ℚ} {n : Int} (nonneg : 0 ≤ q) (exact : (s.apply 1 * q : ℚ) = n) :
    q = n.natAbs ∧ n = s.apply n.natAbs := by
  have magnitude : q = n.natAbs := by
    rw [Nat.cast_natAbs, Int.cast_abs, ← exact, abs_mul, abs_of_nonneg nonneg]
    cases s <;> simp [Sign.apply]
  refine ⟨magnitude, ?_⟩
  rw [magnitude, ← Int.cast_natCast, ← apply_eq_mul] at exact
  exact_mod_cast exact.symm

/-! ### Views and bits -/

theorem Stored.finite_value {u : UnpackedFloat} {n : Int} (stored : Stored u n) :
    u.isFinite = true ∧ value u = n := by
  cases stored with
  | zero s => exact ⟨rfl, rfl⟩
  | normal s normal exact => exact ⟨rfl, exact⟩

theorem Stored.view_packed {u : UnpackedFloat} {n : Int} (stored : Stored u n) :
    view32 (.ofModel (.pack u)) = u := by
  cases stored with
  | zero s => cases s <;> rfl
  | normal s normal => exact normal.unpack_pack s

theorem Stored.whole {u : UnpackedFloat} {n : Int} (stored : Stored u n) :
    Whole (.ofModel (.pack u)) n := by
  show (view32 (.ofModel (.pack u))).isFinite = true ∧ _
  rw [stored.view_packed]
  exact stored.finite_value

/-- A number of less than 24 bits at the least exponent is too small to be whole. -/
theorem Whole.stored {x : Float32} {n : Int} (whole : Whole x n) : Stored (view32 x) n := by
  obtain ⟨finite, exact⟩ := whole
  have known : (view32 x).isFinite = true := finite
  cases view : view32 x with
  | notANumber | infinity s => rw [view] at known; cases known
  | zero s =>
    rw [view, value_zero] at exact
    obtain rfl : n = 0 := by exact_mod_cast exact.symm
    exact .zero s
  | finite s m e pos =>
    rw [view, value_finite] at exact
    obtain ⟨size, -⟩ := signed_eq (nonneg_value m e) exact
    have some : 0 < n.natAbs := by exact_mod_cast size ▸ pos_value pos e
    refine .normal s (normal_of_view32 view ?_) exact
    calc (2 ^ (-126 : Int) : ℚ) ≤ 1 := by norm_num
      _ ≤ n.natAbs := by exact_mod_cast some
      _ = m * 2 ^ e := size.symm

theorem Whole.view_eq_zero {x : Float32} (whole : Whole x 0) : ∃ s, view32 x = .zero s := by
  have stored := whole.stored
  generalize view32 x = u at stored
  cases stored with
  | zero s => exact ⟨s, rfl⟩
  | normal s normal exact =>
    have none := (signed_eq (nonneg_value _ _) exact).1
    exact absurd none (pos_value normal.pos _).ne'

/-! ### Rounding -/

theorem exists_normal {format : Format} {n : Nat} {j : Int} (pos : 0 < n)
    (small : n ≤ 2 ^ format.mantissaBits)
    (low : format.minExponent + format.mantissaBitsWithoutImplicit ≤ j)
    (high : j + 1 ≤ (format.exponentBias : Int) - format.mantissaBitsWithoutImplicit) :
    ∃ m e, Normal format m e ∧ (m * 2 ^ e : ℚ) = n * 2 ^ j := by
  have bits : format.mantissaBits = format.mantissaBitsWithoutImplicit + 1 := Nat.add_comm _ _
  have two : (2 : ℚ) ≠ 0 := by norm_num
  rcases Nat.lt_or_eq_of_le small with less | rfl
  · have short : n.log2 < format.mantissaBits := (Nat.log2_lt pos.ne').2 less
    generalize spare : format.mantissaBitsWithoutImplicit - n.log2 = k
    refine ⟨n * 2 ^ k, j - k, ⟨?_, by omega, by omega⟩, ?_⟩
    · rw [log2_mul_two_pow pos]
      omega
    · rw [zpow_sub₀ two, zpow_natCast]
      push_cast
      field_simp
  · refine ⟨2 ^ format.mantissaBitsWithoutImplicit, j + 1, ⟨?_, by omega, by omega⟩, ?_⟩
    · rw [Nat.log2_two_pow, bits]
    · rw [bits, zpow_add₀ two, zpow_one]
      push_cast
      ring

variable {m : Nat} {e n : Int}

theorem stored_round {n : Nat} (small : n ≤ 2 ^ 24) (same : (m * 2 ^ e : ℚ) = n) (s : Sign) :
    Stored (UnpackedFloat.round .binary32 s m e) (s.apply n) := by
  rcases Nat.eq_zero_or_pos n with rfl | pos
  · obtain rfl : m = 0 := by simpa [zpow_ne_zero] using same
    rw [round_zero]
    cases s <;> exact .zero _
  · obtain ⟨m', e', normal, value⟩ :=
      @exists_normal .binary32 n 0 pos small (by decide) (by decide)
    rw [zpow_zero, mul_one] at value
    rw [normal.canonical.round_eq (same.trans value.symm)]
    refine .normal s normal ?_
    rw [value]
    cases s <;> simp [Sign.apply]

theorem stored_wide {n : Nat} (wide : 24 ≤ m.log2 + 1) (small : n ≤ 2 ^ 24)
    (same : (m * 2 ^ e : ℚ) = n) (s : Sign) :
    Stored (UnpackedFloat.roundWithAccuracy .binary32 s m e .exact) (s.apply n) := by
  rw [← @round_of_wide .binary32 m e wide]
  exact stored_round small same s

theorem stored_normalize {k : Int} (small : n.natAbs ≤ 2 ^ 24) (same : (k * 2 ^ e : ℚ) = n)
    (zeroSign : Sign) : Stored (UnpackedFloat.normalize .binary32 k e zeroSign) n := by
  obtain ⟨rfl, zero⟩ | ⟨s, m, rfl, rounded⟩ := normalize_cases .binary32 k e zeroSign
  · obtain rfl : n = 0 := by simpa using same.symm
    rw [zero]
    exact .zero zeroSign
  · rw [apply_eq_mul, mul_assoc, Int.cast_natCast] at same
    obtain ⟨magnitude, signed⟩ := signed_eq (nonneg_value m e) same
    rw [rounded, signed]
    exact stored_round small magnitude s

theorem whole_round32 {n : Nat} (small : n ≤ 2 ^ 24) (same : (m * 2 ^ e : ℚ) = n) (s : Sign) :
    Whole (round32 s m e) (s.apply n) :=
  (stored_round small same s).whole

/-! ### Sums -/

theorem Stored.neg {u : UnpackedFloat} (stored : Stored u n) : Stored u.neg (-n) := by
  cases stored with
  | zero s => exact .zero _
  | normal s normal exact =>
    refine .normal (-s) normal ?_
    rw [Int.cast_neg, ← exact, ← neg_mul]
    cases s <;> simp [Sign.apply]

theorem aligned_value (m : Nat) {low : Int} (below : low ≤ e) :
    ((m <<< (e - low).toNat : Nat) : ℚ) * 2 ^ low = m * 2 ^ e := by
  obtain ⟨k, rfl⟩ := Int.le.dest below
  have amount : (low + k - low).toNat = k := by omega
  rw [amount, Nat.shiftLeft_eq, zpow_add₀ (by norm_num), zpow_natCast]
  push_cast
  ring

theorem aligned_sum (s t : Sign) (m n : Nat) (e f : Int) :
    ((s.apply (m <<< (e - min e f).toNat : Nat) + t.apply (n <<< (f - min e f).toNat : Nat) : Int) *
      2 ^ min e f : ℚ) = s.apply 1 * (m * 2 ^ e) + t.apply 1 * (n * 2 ^ f) := by
  rw [Int.cast_add, add_mul, apply_eq_mul s, apply_eq_mul t, mul_assoc, mul_assoc,
    Int.cast_natCast, Int.cast_natCast, aligned_value m (min_le_left e f),
    aligned_value n (min_le_right e f)]

theorem Stored.add {u v : UnpackedFloat} {a b : Int} (left : Stored u a) (right : Stored v b)
    (small : (a + b).natAbs ≤ 2 ^ 24) : Stored (.add .binary32 u v) (a + b) := by
  cases left with
  | zero s =>
    rw [Int.zero_add]
    cases right with
    | zero t => cases s <;> cases t <;> exact .zero _
    | normal t normal exact => exact .normal t normal exact
  | normal s normal exact =>
    cases right with
    | zero t =>
      rw [Int.add_zero]
      exact .normal s normal exact
    | normal t normal' exact' =>
      refine stored_normalize small ?_ .positive
      rw [Int.cast_add a b, ← exact, ← exact']
      exact aligned_sum s t _ _ _ _

theorem unpacked_sub_eq (u v : UnpackedFloat) :
    UnpackedFloat.sub .binary32 u v = .add .binary32 u v.neg := by
  cases u with
  | notANumber => rfl
  | infinity s => cases v <;> rfl
  | zero s => cases v <;> rfl
  | finite s m e =>
    cases v with
    | notANumber | infinity t | zero t => rfl
    | finite t n f =>
      have flipped (j k : Int) : j - t.apply k = j + (-t).apply k := by
        cases t with
        | negative => exact Int.sub_neg j k
        | positive => exact Int.sub_eq_add_neg
      simp only [UnpackedFloat.sub, UnpackedFloat.neg, UnpackedFloat.add, flipped]

variable {x y : Float32} {a b : Int}

theorem Whole.add (left : Whole x a) (right : Whole y b) (small : (a + b).natAbs ≤ 2 ^ 24) :
    Whole (x + y) (a + b) :=
  (left.stored.add right.stored small).whole

theorem Whole.neg (whole : Whole x a) : Whole (-x) (-a) := whole.stored.neg.whole

theorem Whole.sub (left : Whole x a) (right : Whole y b) (small : (a - b).natAbs ≤ 2 ^ 24) :
    Whole (x - y) (a - b) := by
  have sum := (left.stored.add right.stored.neg small).whole
  rw [← unpacked_sub_eq] at sum
  exact sum

/-! ### Products and numerals -/

theorem log2_le_mul {m n : Nat} (pos : 0 < n) : m.log2 ≤ (m * n).log2 := by
  rcases Nat.eq_zero_or_pos m with rfl | some
  · simp
  · rw [Nat.le_log2 (Nat.mul_pos some pos).ne']
    exact (Nat.log2_self_le some.ne').trans (Nat.le_mul_of_pos_right m pos)

theorem product_value (s t : Sign) (m n : Nat) (e f : Int) :
    (s.apply 1 * (m * 2 ^ e) * (t.apply 1 * (n * 2 ^ f)) : ℚ) =
      (s * t).apply 1 * ((m * n : Nat) * 2 ^ (e + f)) := by
  have signs : ((s * t).apply 1 : ℚ) = s.apply 1 * t.apply 1 := by
    have integers : (s * t).apply 1 = s.apply 1 * t.apply 1 := by cases s <;> cases t <;> rfl
    exact_mod_cast integers
  rw [signs, zpow_add₀ (by norm_num)]
  push_cast
  ring

theorem Stored.mul {u v : UnpackedFloat} {a b : Int} (left : Stored u a) (right : Stored v b)
    (small : (a * b).natAbs ≤ 2 ^ 24) : Stored (.mul .binary32 u v) (a * b) := by
  cases left with
  | zero s =>
    rw [Int.zero_mul]
    cases right with
    | zero t | normal t => exact .zero _
  | @normal m e _ s normal exact =>
    cases right with
    | zero t =>
      rw [Int.mul_zero]
      exact .zero _
    | @normal n f _ t normal' exact' =>
      have same := product_value s t m n e f
      rw [exact, exact', ← Int.cast_mul] at same
      obtain ⟨magnitude, signed⟩ := signed_eq (nonneg_value _ _) same.symm
      have bits : m.log2 + 1 = 24 := normal.bits
      have wide : 24 ≤ (m * n).log2 + 1 := bits ▸ Nat.succ_le_succ (log2_le_mul normal'.pos)
      rw [signed]
      exact stored_wide wide small magnitude (s * t)

theorem Whole.mul (left : Whole x a) (right : Whole y b) (small : (a * b).natAbs ≤ 2 ^ 24) :
    Whole (x * y) (a * b) :=
  (left.stored.mul right.stored small).whole

theorem whole_ofScientific {n : Nat} (small : n ≤ 2 ^ 24) :
    Whole (Float32.ofScientific n false 0) n := by
  unfold Float32.ofScientific
  split
  · have one : Whole Float32.exactlyRepresentablePowersOfTen[0] 1 := by
      refine ⟨rfl, ?_⟩
      show value (.finite .positive (2 ^ 23) (-23) _) = 1
      norm_num [value, Sign.apply]
    have exact : Whole n.toUInt64.toFloat32 n := by
      have kept : n.toUInt64.toNat = n := by
        rw [Nat.toUInt64_eq, UInt64.toNat_ofNat_of_lt' (Nat.lt_of_le_of_lt small (by decide))]
      show Whole (.ofModel (.pack (.normalize .binary32 n.toUInt64.toNat 0 .positive))) n
      rw [kept]
      exact (@stored_normalize 0 n n small (by simp) .positive).whole
    have product := exact.mul one (by omega)
    rw [Int.mul_one] at product
    exact product
  · rename_i long
    have some : n ≠ 0 := by omega
    have wide : 24 ≤ ((n <<< 24) * 10 ^ 0).log2 + 1 := by
      rw [Nat.pow_zero, Nat.mul_one, Nat.shiftLeft_eq, log2_mul_two_pow (Nat.pos_of_ne_zero some)]
      omega
    have same : (((n <<< 24) * 10 ^ 0 : Nat) * 2 ^ (-24 + 0 : Int) : ℚ) = n := by
      rw [Nat.shiftLeft_eq]
      push_cast
      norm_num
      ring
    show Whole (.ofModel (.pack (.ofScientific .binary32 n 0))) n
    unfold UnpackedFloat.ofScientific
    have range : (0 : Int) ≤ 2 ^ Format.binary32.exponentBits := by decide
    rw [dif_neg some, if_neg (by omega), if_neg (by omega), if_pos (Int.le_refl 0)]
    exact (stored_wide wide small same .positive).whole

/-! ### Remainders -/

theorem Stored.abs {u : UnpackedFloat} (stored : Stored u n) : Stored u.abs n.natAbs := by
  cases stored with
  | zero s => exact .zero _
  | normal s normal exact =>
    refine .normal .positive normal ?_
    rw [(signed_eq (nonneg_value _ _) exact).1, Sign.apply, Int.cast_one, one_mul, Int.cast_natCast]

theorem Stored.lt_zero_iff {u : UnpackedFloat} (stored : Stored u n) (s : Sign) :
    u.compare (.zero s) = some .lt ↔ n < 0 := by
  cases stored with
  | zero s => simp [UnpackedFloat.compare]
  | normal s normal exact =>
    obtain ⟨size, signed⟩ := signed_eq (nonneg_value _ _) exact
    have some : 0 < n.natAbs := by exact_mod_cast size ▸ pos_value normal.pos _
    cases s with
    | negative =>
      rw [Sign.apply] at signed
      exact iff_of_true rfl (by omega)
    | positive =>
      rw [Sign.apply] at signed
      exact iff_of_false (fun less => by cases less) (by omega)

theorem Whole.lt_zero_iff (whole : Whole x n) : x < 0.0 ↔ n < 0 := by
  rw [lt_iff]
  exact whole.stored.lt_zero_iff .positive

theorem mod_value {m n a b : Nat} (left : (m * 2 ^ e : ℚ) = a) (right : (n * 2 ^ e : ℚ) = b) :
    ((m % n : Nat) * 2 ^ e : ℚ) = (a % b : Nat) := by
  obtain ⟨k, rfl | rfl⟩ := Int.eq_nat_or_neg e
  · rw [zpow_natCast] at left right ⊢
    have left : m * 2 ^ k = a := by exact_mod_cast left
    have right : n * 2 ^ k = b := by exact_mod_cast right
    rw [← left, ← right, Nat.mul_mod_mul_right]
    push_cast
    rfl
  · have scale : (2 ^ k : ℚ) ≠ 0 := by positivity
    rw [zpow_neg, zpow_natCast, ← div_eq_mul_inv, div_eq_iff scale] at left right ⊢
    have left : m = a * 2 ^ k := by exact_mod_cast left
    have right : n = b * 2 ^ k := by exact_mod_cast right
    rw [left, right, Nat.mul_mod_mul_right]
    push_cast
    rfl

theorem tmod_apply (s t : Sign) (a b : Nat) :
    (s.apply a).tmod (t.apply b) = s.apply (a % b : Nat) := by
  cases s <;> cases t <;> simp [Sign.apply, Int.tmod_eq_emod_of_nonneg]

theorem Whole.remainder32 (left : Whole x a) (right : Whole y b) (nonzero : b ≠ 0)
    (small : b.natAbs ≤ 2 ^ 24) : Whole (remainder32 x y) (a.tmod b) := by
  have first := left.stored
  have second := right.stored
  unfold Binary.remainder32
  generalize view32 x = u at first
  generalize view32 y = v at second
  cases second with
  | zero t => exact absurd rfl nonzero
  | normal t normal' exact' =>
    cases first with
    | zero s =>
      rw [Int.zero_tmod]
      exact left
    | normal s normal exact =>
      obtain ⟨size, signed⟩ := signed_eq (nonneg_value _ _) exact
      obtain ⟨size', signed'⟩ := signed_eq (nonneg_value _ _) exact'
      rw [← aligned_value _ (min_le_left _ _)] at size
      rw [← aligned_value _ (min_le_right _ _)] at size'
      have less := Nat.mod_lt a.natAbs (Int.natAbs_pos.2 nonzero)
      rw [signed, signed', tmod_apply]
      exact whole_round32 (by omega) (mod_value size size') s

theorem Whole.fold32 (left : Whole x a) (right : Whole y b) (pos : 0 < b)
    (small : b ≤ 2 ^ 24) : Whole (fold32 x y) (a % b) := by
  have rest := left.remainder32 right pos.ne' (by omega)
  have size : Whole y.abs b := by
    have := right.stored.abs.whole
    rwa [Int.natAbs_of_nonneg pos.le] at this
  have range := Int.emod_nonneg a pos.ne'
  have bound := Int.emod_lt_of_pos a pos
  have parts : a.tmod b = a % b ∨ a.tmod b = a % b - b := by
    rw [Int.tmod_eq_emod]
    split <;> omega
  unfold Binary.fold32
  dsimp only
  split
  · rename_i below
    have negative := rest.lt_zero_iff.1 below
    have shifted : a % b = a.tmod b + b := by omega
    rw [shifted]
    exact rest.add size (by omega)
  · rename_i above
    have nonneg : 0 ≤ a.tmod b := Int.not_lt.1 (mt rest.lt_zero_iff.2 above)
    have same : a % b = a.tmod b := by omega
    rw [same]
    exact rest

end RobotScript.Binary
