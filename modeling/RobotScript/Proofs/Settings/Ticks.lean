import RobotScript.Proofs.Number.Doubles
import RobotScript.Settings.Basic

/-!
# Tick counts

Ticks are counted in double precision, where neither the product of a time and a rate nor the
quotient by the units of a second need be exact. The counts are: where a half is reached, rounding
keeps it, since double precision has the halves; where it is missed, it is missed by more than
rounding adds.
-/

namespace RobotScript

open Float.Model (UnpackedFloat)
open Binary

/-! ### Halves -/

section Halves

variable {p w q : Nat} {product quotient : UnpackedFloat}

theorem half_reached (some : 0 < w) (few : w ≤ 500) (small : q < 2 ^ 32)
    (first : Rounds product p) (second : Rounds quotient (value product / (2 * w)))
    (reached : w * (2 * q + 1) ≤ p) : (q + 1 / 2 : ℚ) ≤ value quotient := by
  have size : w * (2 * q + 1) ≤ 500 * 2 ^ 33 := Nat.mul_le_mul few (by omega)
  obtain ⟨n, f, normal, whole⟩ := @exists_normal .binary64 (w * (2 * q + 1)) 0
    (Nat.mul_pos some (by omega)) (size.trans (by decide)) (by decide) (by decide)
  obtain ⟨n', f', normal', half⟩ := @exists_normal .binary64 (2 * q + 1) (-1) (by omega)
    (le_trans (show 2 * q + 1 ≤ 2 ^ 33 by omega) (by decide)) (by decide) (by decide)
  rw [zpow_zero, mul_one] at whole
  have half : (n' * 2 ^ f' : ℚ) = q + 1 / 2 := by
    rw [half]
    push_cast
    norm_num
    ring
  have dividend : ((w * (2 * q + 1) : Nat) : ℚ) ≤ value product := by
    rw [← whole]
    exact first.reaches normal.canonical (by rw [whole]; exact_mod_cast reached)
  rw [← half]
  refine second.reaches normal'.canonical ?_
  rw [half, le_div_iff₀ (by positivity)]
  push_cast at dividend
  linarith

theorem half_missed (some : 0 < w) (few : w ≤ 500) (small : q < 2 ^ 32)
    (first : Rounds product p) (second : Rounds quotient (value product / (2 * w)))
    (missed : p < w * (2 * q + 1)) : value quotient < (q + 1 / 2 : ℚ) := by
  have size : w * (2 * q + 1) ≤ 500 * 2 ^ 33 := Nat.mul_le_mul few (by omega)
  generalize goal : w * (2 * q + 1) = n at *
  have goal : (2 * w : ℚ) * (q + 1 / 2) = n := by
    rw [← goal]
    push_cast
    ring
  have short : (p : ℚ) ≤ n - 1 := by
    have : (p + 1 : ℚ) ≤ n := by exact_mod_cast missed
    linarith
  have size : (n : ℚ) ≤ 4294967296000 := by exact_mod_cast size
  have divisor : (0 : ℚ) < 2 * w := by positivity
  have scaled : 2 * w * value quotient ≤ value product + value product / 2 ^ 52 := by
    have back : 2 * w * (value product / (2 * w)) = value product :=
      mul_div_cancel₀ _ divisor.ne'
    have above := mul_le_mul_of_nonneg_left second.above divisor.le
    rwa [mul_add, ← mul_div_assoc _ _ (2 ^ 52 : ℚ), back] at above
  have above := first.above
  refine lt_of_mul_lt_mul_left ?_ divisor.le
  rw [goal]
  norm_num at scaled above
  linarith

theorem count_eq (some : 0 < w) (few : w ≤ 500) (first : Rounds product p)
    (second : Rounds quotient (value product / (2 * w))) :
    min (2 ^ 32 - 1) ⌊value quotient + 1 / 2⌋₊ = min (2 ^ 32 - 1) ((p + w) / (2 * w)) := by
  have same (q : Nat) (small : q < 2 ^ 32 - 1) :
      q < ⌊value quotient + 1 / 2⌋₊ ↔ q < (p + w) / (2 * w) := by
    have exact : q < (p + w) / (2 * w) ↔ w * (2 * q + 1) ≤ p := by
      rw [Nat.lt_iff_add_one_le, Nat.le_div_iff_mul_le (by omega),
        show (q + 1) * (2 * w) = w * (2 * q + 1) + w by ring, Nat.add_le_add_iff_right]
    have computed : q < ⌊value quotient + 1 / 2⌋₊ ↔ (q + 1 / 2 : ℚ) ≤ value quotient := by
      rw [Nat.lt_iff_add_one_le, Nat.le_floor_iff' (Nat.succ_ne_zero q), Nat.cast_succ]
      constructor <;> intro bound <;> linarith
    rw [exact, computed]
    refine ⟨fun bound => ?_, half_reached some few (by omega) first second⟩
    by_contra missed
    exact absurd (half_missed some few (by omega) first second (by omega)) (not_lt.2 bound)
  have left := same (min (2 ^ 32 - 1) ⌊value quotient + 1 / 2⌋₊)
  have right := same (min (2 ^ 32 - 1) ((p + w) / (2 * w)))
  omega

end Halves

/-! ### Counts -/

namespace Settings

variable {α : Type}

theorem view64_product {a b : Nat} (small : a < 2 ^ 32) (small' : b < 2 ^ 32) :
    (a * b = 0 ∧ ∃ s, view64 (Float.ofNat a * Float.ofNat b) = .zero s) ∨
      1 ≤ a * b ∧ Rounds (view64 (Float.ofNat a * Float.ofNat b)) (a * b : Nat) := by
  have zero : view64 (Float.ofNat 0) = .zero .positive := rfl
  have view (x y : Float) : view64 (x * y) =
      view64 (.ofModel (.pack (.mul .binary64 (view64 x) (view64 y)))) := rfl
  have count {n : Nat} (some : 0 < n) (small : n < 2 ^ 32) :=
    view64_ofNat some (small.trans (by decide))
  rw [view]
  rcases Nat.eq_zero_or_pos a with rfl | some
  · refine .inl ⟨Nat.zero_mul b, .positive, ?_⟩
    rcases Nat.eq_zero_or_pos b with rfl | some'
    · rw [zero]
      exact view64_packed (kept_zero _ _)
    · obtain ⟨m, e, pos, finite, -⟩ := finite_of_pos (u := view64 (Float.ofNat b))
        (by rw [(count some' small').2]; exact_mod_cast some')
      rw [zero, finite]
      exact view64_packed (kept_zero _ _)
  · obtain ⟨kept, exact⟩ := count some small
    have large : 1 ≤ value (view64 (Float.ofNat a)) := by rw [exact]; exact_mod_cast some
    rcases Nat.eq_zero_or_pos b with rfl | some'
    · obtain ⟨m, e, pos, finite, -⟩ := finite_of_pos (zero_lt_one.trans_le large)
      refine .inl ⟨Nat.mul_zero a, .positive, ?_⟩
      rw [zero, finite]
      exact view64_packed (kept_zero _ _)
    · obtain ⟨-, exact'⟩ := count some' small'
      have large' : 1 ≤ value (view64 (Float.ofNat b)) := by rw [exact']; exact_mod_cast some'
      have size : a * b ≤ 2 ^ 32 * 2 ^ 32 := Nat.mul_le_mul small.le small'.le
      have rounds := mul_rounds kept large large' (by
        rw [exact, exact']
        exact_mod_cast size.trans (by norm_num))
      rw [exact, exact'] at rounds
      refine .inr ⟨Nat.mul_pos some some', ?_⟩
      rw [view64_packed rounds.kept]
      exact_mod_cast rounds

theorem ticksFor_toNat (s : Settings α) (amount : UInt32) {units : Float} {w : Nat} (some : 0 < w)
    (few : w ≤ 500) (divisor : value (view64 units) = 2 * w) :
    (s.ticksFor amount units).toNat =
      min (2 ^ 32 - 1) ((amount.toNat * s.ticksPerSecond.toNat + w) / (2 * w)) := by
  unfold ticksFor
  have view (x : Float) : view64 (x / units) =
      view64 (.ofModel (.pack (.div .binary64 (view64 x) (view64 units)))) := rfl
  have large : 1 ≤ value (view64 units) := by
    rw [divisor]
    exact_mod_cast Nat.mul_pos two_pos some
  obtain ⟨none, sign, zero⟩ | ⟨least, first⟩ :=
    view64_product amount.toNat_lt s.ticksPerSecond.toNat_lt
  · obtain ⟨m, e, pos, finite, -⟩ := finite_of_pos (zero_lt_one.trans_le large)
    have nothing : view64 (.ofModel (.pack (.div .binary64 (.zero sign)
        (.finite .positive m e pos)))) = .zero (sign / .positive) := view64_packed (kept_zero _ _)
    rw [view, zero, finite, none, nothing, Nat.zero_add, Nat.div_eq_of_lt (by omega)]
    rfl
  · obtain ⟨n, f, normal, one⟩ :=
      @exists_normal .binary64 1 0 one_pos (by decide) (by decide) (by decide)
    rw [zpow_zero, mul_one, Nat.cast_one] at one
    have large' := first.reaches normal.canonical (by rw [one]; exact_mod_cast least)
    rw [one] at large'
    have size : amount.toNat * s.ticksPerSecond.toNat ≤ 2 ^ 32 * 2 ^ 32 :=
      Nat.mul_le_mul amount.toNat_lt.le s.ticksPerSecond.toNat_lt.le
    have size : ((amount.toNat * s.ticksPerSecond.toNat : Nat) : ℚ) ≤ 2 ^ 64 := by
      exact_mod_cast size
    have few' : (w : ℚ) ≤ 500 := by exact_mod_cast few
    have second := div_rounds large' large (by linarith [first.above]) (by rw [divisor]; linarith)
    rw [divisor] at second
    rw [view, view64_packed second.kept, nearestUInt32_toNat second.kept.finite]
    exact count_eq some few first second

/-- The number of ticks in a time is the exact one, rounded to the closest, and never less in a
longer time or at a higher rate. -/
theorem ticks_exact :
    (∀ (s : Settings α) (tenths : UInt32), s.ticksForTenths tenths =
      max 1 (min (2 ^ 32 - 1) ((tenths.toNat * s.ticksPerSecond.toNat + 5) / 10))) ∧
    (∀ (s : Settings α) (millis : UInt32), s.ticksForMillis millis =
      min (2 ^ 32 - 1) ((millis.toNat * s.ticksPerSecond.toNat + 500) / 1000)) ∧
    ∀ (s s' : Settings α) (a b : UInt32), s.ticksPerSecond ≤ s'.ticksPerSecond → a ≤ b →
      s.ticksForTenths a ≤ s'.ticksForTenths b ∧ s.ticksForMillis a ≤ s'.ticksForMillis b := by
  have ten : value (view64 10.0) = 2 * (5 : Nat) := by
    rw [show view64 10.0 = .finite .positive (10 * 2 ^ 49) (-49) (by decide) from rfl]
    norm_num [value_finite, UnpackedFloat.Sign.apply]
  have thousand : value (view64 1000.0) = 2 * (500 : Nat) := by
    rw [show view64 1000.0 = .finite .positive (1000 * 2 ^ 43) (-43) (by decide) from rfl]
    norm_num [value_finite, UnpackedFloat.Sign.apply]
  have tenths (s : Settings α) (amount : UInt32) : s.ticksForTenths amount =
      max 1 (min (2 ^ 32 - 1) ((amount.toNat * s.ticksPerSecond.toNat + 5) / 10)) :=
    congrArg (max 1) (s.ticksFor_toNat amount (by decide) (by decide) ten)
  have millis (s : Settings α) (amount : UInt32) : s.ticksForMillis amount =
      min (2 ^ 32 - 1) ((amount.toNat * s.ticksPerSecond.toNat + 500) / 1000) :=
    s.ticksFor_toNat amount (by decide) (by decide) thousand
  refine ⟨tenths, millis, fun s s' a b faster longer => ?_⟩
  have more : a.toNat * s.ticksPerSecond.toNat ≤ b.toNat * s'.ticksPerSecond.toNat :=
    Nat.mul_le_mul longer faster
  rw [tenths, tenths, millis, millis]
  omega

/-- A rate at which half ticks occur. -/
def brisk : Settings Float32 := { Settings.default with ticksPerSecond := 333 }

theorem ticks_exact_brisk :
    brisk.ticksForMillis 1500 = 500 ∧ brisk.ticksForTenths 4294967295 = 4294967295 ∧
      (default : Settings Float32).ticksPerSecond ≤ brisk.ticksPerSecond ∧
      (default : Settings Float32).ticksForTenths 7 ≤ brisk.ticksForTenths 8 := by
  obtain ⟨tenths, millis, monotone⟩ := @ticks_exact Float32
  have faster : (default : Settings Float32).ticksPerSecond ≤ brisk.ticksPerSecond := by decide
  exact ⟨(millis brisk 1500).trans (by decide), (tenths brisk 4294967295).trans (by decide), faster,
    (monotone default brisk 7 8 faster (by decide)).1⟩

end Settings

end RobotScript
