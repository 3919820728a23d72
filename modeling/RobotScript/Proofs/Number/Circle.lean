import RobotScript.Number.Trigonometry
import RobotScript.Proofs.Number.Ordering

/-!
# Sine and cosine

Sine and cosine are the components of one direction along two axes a quarter turn apart. A component
tells how far the direction is turned away from its axis: a direction more than a quarter turn away
has none, and one that is close by has at least half of its length there.
-/

namespace RobotScript.Trigonometry

open Float.Model (UnpackedFloat)
open Float.Model.UnpackedFloat (Sign)
open Binary

/-! ### Series -/

theorem one_eq : one = 2 ^ 128 := rfl

theorem one_pos : 0 < one := by decide

theorem alternating_le (z n a : Nat) : alternating z n a ≤ one := by
  cases n with
  | zero => exact le_rfl
  | succ n => exact Nat.sub_le _ _

/-- The first term alone takes off more than the series does. -/
theorem one_le_alternating_add (z n a : Nat) :
    one ≤ alternating z (n + 1) a + z / (a * (a + 1)) := by
  have term : z * alternating z n (a + 2) / (one * (a * (a + 1))) ≤ z / (a * (a + 1)) := by
    calc z * alternating z n (a + 2) / (one * (a * (a + 1)))
        ≤ one * z / (one * (a * (a + 1))) := by
          rw [Nat.mul_comm one z]
          exact Nat.div_le_div_right (Nat.mul_le_mul_left z (alternating_le z n (a + 2)))
      _ = z / (a * (a + 1)) := Nat.mul_div_mul_left _ _ one_pos
  rw [alternating]
  omega

theorem cosine_le (r : Nat) : (octant r).2 ≤ one := alternating_le _ _ _

theorem sine_le (r : Nat) : (octant r).1 ≤ r := by
  calc (octant r).1 ≤ r * one / one :=
        Nat.div_le_div_right (Nat.mul_le_mul_left r (alternating_le _ _ _))
    _ = r := Nat.mul_div_cancel r one_pos

theorem one_le_two_cosine {r : Nat} (small : r ≤ one) : one ≤ 2 * (octant r).2 := by
  have square : r * r / one ≤ one := by
    calc r * r / one ≤ one * one / one := Nat.div_le_div_right (Nat.mul_le_mul small small)
      _ = one := Nat.mul_div_cancel one one_pos
  have series : one ≤ (octant r).2 + r * r / one / (1 * (1 + 1)) := one_le_alternating_add _ _ _
  omega

/-- A small angle is hardly longer than its sine. -/
theorem le_sine_add {r : Nat} (small : r ≤ 2 ^ 116) : r ≤ (octant r).1 + 2 ^ 93 := by
  have square : r * r / one ≤ 2 ^ 104 := by
    calc r * r / one ≤ 2 ^ 116 * 2 ^ 116 / one := Nat.div_le_div_right (Nat.mul_le_mul small small)
      _ = 2 ^ 104 := by decide
  have series := one_le_alternating_add (r * r / one) 17 2
  show r ≤ r * alternating (r * r / one) 18 2 / one + 2 ^ 93
  generalize alternating (r * r / one) 18 2 = factor at *
  have product : r * one ≤ r * factor + 2 ^ 220 := by
    calc r * one ≤ r * (factor + 2 ^ 104) := Nat.mul_le_mul_left r (by omega)
      _ = r * factor + r * 2 ^ 104 := Nat.mul_add _ _ _
      _ ≤ r * factor + 2 ^ 220 := Nat.add_le_add_left (Nat.mul_le_mul_right (2 ^ 104) small) _
  have quotient : r * factor < r * factor / one * one + one := Nat.lt_div_mul_add one_pos
  rw [one_eq] at *
  omega

/-! ### Components -/

/-- Sine of an angle of up to an eighth of a turn to either side. -/
def sineOf (r : Int) : Int :=
  let sine : Int := (octant (r.natAbs >>> 192)).1
  if r < 0 then -sine else sine

def cosineOf (r : Int) : Int := (octant (r.natAbs >>> 192)).2

/-- The component of a direction along an axis from which it is `i` quarter turns and the angle `r`
away. -/
def component (i r : Int) : Int :=
  match i % 4 with
  | 0 => cosineOf r
  | 1 => -sineOf r
  | 2 => -cosineOf r
  | _ => sineOf r

/-- Whether an angle can be left over when the nearest quarter turn is taken away. -/
def Leftover (r : Int) : Prop := 2 * r.natAbs ≤ quarterTurn

section Components

variable {i r : Int}

theorem mod_four_cases (i : Int) : i % 4 = 0 ∨ i % 4 = 1 ∨ i % 4 = 2 ∨ i % 4 = 3 := by omega

theorem component_ahead (ahead : i % 4 = 0) : component i r = cosineOf r := by
  simp [component, ahead]

theorem component_right (right : i % 4 = 1) : component i r = -sineOf r := by
  simp [component, right]

theorem component_behind (behind : i % 4 = 2) : component i r = -cosineOf r := by
  simp [component, behind]

theorem component_left (left : i % 4 = 3) : component i r = sineOf r := by
  simp [component, left]

theorem component_sub_two (i r : Int) : component (i - 2) r = -component i r := by
  rcases mod_four_cases i with ahead | right | behind | left
  · rw [component_ahead ahead, component_behind (by omega)]
  · rw [component_right right, component_left (by omega), neg_neg]
  · rw [component_behind behind, component_ahead (by omega), neg_neg]
  · rw [component_left left, component_right (by omega)]

theorem sineOf_neg (r : Int) : sineOf (-r) = -sineOf r := by
  unfold sineOf
  dsimp only
  rw [Int.natAbs_neg]
  rcases lt_trichotomy r 0 with below | rfl | above
  · rw [if_neg (by omega), if_pos below, neg_neg]
  · decide
  · rw [if_pos (by omega), if_neg (by omega)]

theorem cosineOf_neg (r : Int) : cosineOf (-r) = cosineOf r := by
  unfold cosineOf
  rw [Int.natAbs_neg]

/-- As far away to the other side. -/
theorem component_neg (i r : Int) : component (-i) (-r) = component i r := by
  rcases mod_four_cases i with ahead | right | behind | left
  · rw [component_ahead ahead, component_ahead (by omega), cosineOf_neg]
  · rw [component_right right, component_left (by omega), sineOf_neg]
  · rw [component_behind behind, component_behind (by omega), cosineOf_neg]
  · rw [component_left left, component_right (by omega), sineOf_neg, neg_neg]

theorem Leftover.neg (left : Leftover r) : Leftover (-r) := by
  unfold Leftover
  rwa [Int.natAbs_neg]

theorem Leftover.le_one (left : Leftover r) : r.natAbs >>> 192 ≤ one := by
  unfold Leftover quarterTurn at left
  rw [Nat.shiftRight_eq_div_pow, one_eq]
  omega

theorem natAbs_sineOf_le (r : Int) : 2 ^ 192 * (sineOf r).natAbs ≤ r.natAbs := by
  have sine := sine_le (r.natAbs >>> 192)
  rw [Nat.shiftRight_eq_div_pow] at sine
  unfold sineOf
  rw [Nat.shiftRight_eq_div_pow]
  dsimp only
  split <;> omega

theorem sineOf_sign (r : Int) : 0 ≤ r ∧ 0 ≤ sineOf r ∨ r < 0 ∧ sineOf r ≤ 0 := by
  unfold sineOf
  dsimp only
  split <;> omega

theorem Leftover.cosineOf_bounds (left : Leftover r) :
    one ≤ 2 * cosineOf r ∧ cosineOf r ≤ one := by
  have most := cosine_le (r.natAbs >>> 192)
  have least := one_le_two_cosine left.le_one
  unfold cosineOf
  omega

theorem Leftover.natAbs_component_le (left : Leftover r) (i : Int) :
    (component i r).natAbs ≤ one := by
  obtain ⟨-, cosine⟩ := left.cosineOf_bounds
  have sine := natAbs_sineOf_le r
  have small := left.le_one
  rw [Nat.shiftRight_eq_div_pow] at small
  have nonneg : 0 ≤ cosineOf r := Int.natCast_nonneg _
  unfold component
  split <;> omega

/-- A component of less than half the length bounds the angle that is missing to a quarter turn. -/
theorem Leftover.exists_turns_of_le {n : Nat} (left : Leftover r) (pos : 0 < n)
    (half : 2 * n ≤ one) (most : n ≤ component i r) :
    ∃ j : Int, ((i - 4 * j) * quarterTurn + r).natAbs + 2 ^ 192 * n ≤ quarterTurn := by
  have sine := natAbs_sineOf_le r
  have sign := sineOf_sign r
  unfold Leftover at left
  rcases mod_four_cases i with ahead | right | behind | before
  · -- an eighth of a turn, and half the length, make less than a quarter turn
    obtain ⟨j, rfl⟩ : ∃ j, i = 4 * j := ⟨i / 4, by omega⟩
    refine ⟨j, ?_⟩
    rw [sub_self, zero_mul, zero_add]
    rw [one_eq] at half
    unfold quarterTurn at *
    omega
  · rw [component_right right] at most
    obtain ⟨j, rfl⟩ : ∃ j, i = 4 * j + 1 := ⟨i / 4, by omega⟩
    refine ⟨j, ?_⟩
    rw [add_sub_cancel_left, one_mul]
    omega
  · rw [component_behind behind] at most
    have nonneg : 0 ≤ cosineOf r := Int.natCast_nonneg _
    omega
  · rw [component_left before] at most
    obtain ⟨j, rfl⟩ : ∃ j, i = 4 * j - 1 := ⟨i / 4 + 1, by omega⟩
    refine ⟨j, ?_⟩
    rw [sub_sub_cancel_left, neg_one_mul]
    omega

/-- A direction that is close to the axis has at least half of its length there. -/
theorem Leftover.le_component {j : Int} (left : Leftover r)
    (close : 4 * ((i - 4 * j) * quarterTurn + r).natAbs ≤ quarterTurn) :
    one ≤ 2 * component i r := by
  obtain ⟨least, -⟩ := left.cosineOf_bounds
  have along : i = 4 * j := by
    unfold Leftover at left
    unfold quarterTurn at *
    omega
  rw [component_ahead (by omega)]
  exact least

end Components

/-! ### From fixed point to single precision -/

/-- The number `y` is the fixed-point number `n`, off by at most `2 ^ -20`. -/
def Approximates (y : Float32) (n : Int) : Prop :=
  y.isFinite = true ∧ |value (view32 y) - n / 2 ^ 128| ≤ 1 / 2 ^ 20

section Approximates

variable {x y : Float32} {n : Int}

theorem Approximates.neg (near : Approximates y n) : Approximates (-y) (-n) := by
  obtain ⟨finite, error⟩ := near
  refine ⟨isFinite_neg finite, ?_⟩
  rw [value_view32_neg finite, Int.cast_neg, neg_div, ← neg_sub', abs_neg]
  exact error

theorem Approximates.mul_one (near : Approximates y n) : Approximates (y * 1.0) n := by
  obtain ⟨finite, error⟩ := near
  have view := view32_mul_one finite
  refine ⟨?_, ?_⟩
  · show (view32 (y * 1.0)).isFinite = true
    rw [view]
    exact finite
  · rw [view]
    exact error

/-- The bits that are dropped before rounding are worth less than the last one kept. -/
theorem sticky_bounds (n drop : Nat) :
    let top := n >>> drop
    let sticky := if top <<< drop == n then 0 else 1
    2 * n ≤ (2 * top + sticky) * 2 ^ drop + 2 ^ drop ∧
      (2 * top + sticky) * 2 ^ drop ≤ 2 * n + 2 ^ drop := by
  have below : n / 2 ^ drop * 2 ^ drop ≤ n := Nat.div_mul_le_self n (2 ^ drop)
  have above : n < n / 2 ^ drop * 2 ^ drop + 2 ^ drop := Nat.lt_div_mul_add (Nat.two_pow_pos drop)
  dsimp only
  rw [Nat.shiftRight_eq_div_pow, Nat.shiftLeft_eq, Nat.add_mul, Nat.mul_assoc]
  split
  · rename_i exact
    have exact := eq_of_beq exact
    omega
  · omega

/-- Rounding starts from the fixed-point number cut off after its sixtieth bit. -/
theorem exists_ofFixed_eq {n : Nat} (small : n ≤ one) (s : Sign) :
    ∃ (m : Nat) (e : Int), ofFixed s n = round32 s m e ∧
      |(m * 2 ^ e - n / 2 ^ 128 : ℚ)| ≤ 1 / 2 ^ 61 := by
  have short : n.log2 - 60 ≤ 68 := by
    rcases Nat.eq_zero_or_pos n with rfl | pos
    · decide
    · have : n.log2 < 129 := (Nat.log2_lt pos.ne').2 (small.trans_lt (by decide))
      omega
  obtain ⟨least, most⟩ := sticky_bounds n (n.log2 - 60)
  refine ⟨_, _, rfl, ?_⟩
  generalize 2 * n >>> (n.log2 - 60) + _ = m at *
  generalize n.log2 - 60 = drop at *
  have place : (2 ^ drop : ℚ) ≤ 2 ^ 68 := pow_le_pow_right₀ (by norm_num) short
  have scaled : (m * 2 ^ (drop - 1 - 128 : Int) : ℚ) = m * 2 ^ drop / 2 ^ 129 := by
    rw [show (drop - 1 - 128 : Int) = drop - (129 : Nat) by omega, zpow_sub₀ (by norm_num),
      zpow_natCast, zpow_natCast, mul_div_assoc]
  have least : (2 * n : ℚ) ≤ m * 2 ^ drop + 2 ^ drop := by exact_mod_cast least
  have most : (m * 2 ^ drop : ℚ) ≤ 2 * n + 2 ^ drop := by exact_mod_cast most
  rw [scaled, abs_sub_le_iff]
  exact ⟨by linarith, by linarith⟩

theorem ofFixed_near {n : Nat} (small : n ≤ one) (s : Sign) :
    (ofFixed s n).isFinite = true ∧
      |value (view32 (ofFixed s n)) - s.apply 1 * (n / 2 ^ 128)| ≤ 1 / 2 ^ 20 := by
  obtain ⟨m, e, start, cut⟩ := exists_ofFixed_eq small s
  have size : (m * 2 ^ e : ℚ) ≤ 2 := by
    have whole : (n : ℚ) ≤ 2 ^ 128 := by exact_mod_cast small
    have error := (abs_sub_le_iff.1 cut).1
    linarith
  obtain ⟨finite, rounded⟩ := near_round (size.trans (by norm_num)) s
  rw [start]
  refine ⟨finite, ?_⟩
  rw [abs_value] at rounded
  have rounded := rounded.trans (max_le_max (div_le_div_of_nonneg_right size (by norm_num)) le_rfl)
  calc |value (view32 (round32 s m e)) - s.apply 1 * (n / 2 ^ 128 : ℚ)|
      ≤ _ + |(s.apply 1 * (m * 2 ^ e) - s.apply 1 * (n / 2 ^ 128) : ℚ)| := abs_sub_le _ _ _
    _ ≤ 2 / 2 ^ 23 + 1 / 2 ^ 61 := by
        rw [← mul_sub, abs_signed]
        exact add_le_add (rounded.trans (by norm_num)) cut
    _ ≤ 1 / 2 ^ 20 := by norm_num

theorem approximates_ofSigned (small : n.natAbs ≤ one) : Approximates (ofSigned n) n := by
  obtain ⟨finite, error⟩ := ofFixed_near small (if n < 0 then .negative else .positive)
  refine ⟨finite, ?_⟩
  have signed : ((if n < 0 then Sign.negative else .positive).apply 1 * (n.natAbs / 2 ^ 128) : ℚ) =
      n / 2 ^ 128 := by
    rw [Nat.cast_natAbs, Int.cast_abs]
    split
    · rename_i below
      rw [abs_of_neg (by exact_mod_cast below), Sign.apply]
      push_cast
      ring
    · rename_i above
      rw [abs_of_nonneg (by exact_mod_cast Int.not_lt.1 above), Sign.apply]
      push_cast
      ring
  rw [← signed]
  exact error

end Approximates

/-! ### Sine and cosine -/

/-- The quarter turn nearest to an angle and the angle left over. -/
theorem circle_eq (m : Nat) (e : Int) : ∃ i r : Int, Leftover r ∧
    ((m <<< (e + 320).toNat : Nat) : Int) = i * quarterTurn + r ∧
    circle m e = (component (i - 1) r, component i r) := by
  unfold circle
  dsimp only
  generalize m <<< (e + 320).toNat = x
  generalize turns : (2 * x + quarterTurn) / (2 * quarterTurn) = k
  have below := Nat.div_mul_le_self (2 * x + quarterTurn) (2 * quarterTurn)
  have above := Nat.lt_div_mul_add (show 0 < 2 * quarterTurn by decide) (a := 2 * x + quarterTurn)
  rw [turns] at below above
  refine ⟨k, x - k * quarterTurn, ?_, by omega, ?_⟩
  · unfold Leftover quarterTurn at *
    omega
  · have range : k % 4 = 0 ∨ k % 4 = 1 ∨ k % 4 = 2 ∨ k % 4 = 3 := by omega
    rcases range with ahead | right | behind | left
    · rw [ahead, component_ahead (i := k) (by omega), component_left (by omega)]
      rfl
    · rw [right, component_right (i := k) (by omega), component_ahead (by omega)]
      rfl
    · rw [behind, component_behind (i := k) (by omega), component_right (by omega)]
      rfl
    · rw [left, component_left (i := k) (by omega), component_behind (by omega)]
      rfl

/-- The sine of an angle that is too small for the series to matter. -/
theorem abs_sub_sineOf_le {r : Int} (nonneg : 0 ≤ r) (small : r ≤ 2 ^ 116 * 2 ^ 192) :
    |(r / 2 ^ 320 - sineOf r / 2 ^ 128 : ℚ)| ≤ 1 / 2 ^ 20 := by
  have most := sine_le (r.natAbs >>> 192)
  have least := @le_sine_add (r.natAbs >>> 192) (by rw [Nat.shiftRight_eq_div_pow]; omega)
  have same : sineOf r = (octant (r.natAbs >>> 192)).1 := if_neg (by omega)
  rw [Nat.shiftRight_eq_div_pow] at most least same
  have below : sineOf r * 2 ^ 192 ≤ r := by omega
  have above : r ≤ (sineOf r + 2 ^ 94) * 2 ^ 192 := by omega
  have least : (sineOf r : ℚ) ≤ r / 2 ^ 192 := by
    rw [le_div_iff₀ (by positivity)]
    exact_mod_cast below
  have most : (r / 2 ^ 192 : ℚ) ≤ sineOf r + 2 ^ 94 := by
    rw [div_le_iff₀ (by positivity)]
    exact_mod_cast above
  rw [show (r / 2 ^ 320 : ℚ) = r / 2 ^ 192 / 2 ^ 128 by rw [div_div, ← pow_add], abs_sub_le_iff]
  exact ⟨by linarith, by linarith⟩

theorem shiftLeft_le {m k a b : Nat} (short : m.log2 + 1 + k ≤ a + b) :
    m <<< k ≤ 2 ^ a * 2 ^ b := by
  calc m <<< k = m * 2 ^ k := Nat.shiftLeft_eq _ _
    _ ≤ 2 ^ (m.log2 + 1) * 2 ^ k := Nat.mul_le_mul_right _ Nat.lt_log2_self.le
    _ = 2 ^ (m.log2 + 1 + k) := (Nat.pow_add _ _ _).symm
    _ ≤ 2 ^ (a + b) := Nat.pow_le_pow_right (by decide) short
    _ = 2 ^ a * 2 ^ b := Nat.pow_add _ _ _

theorem shiftLeft_le_of_tiny {m : Nat} {e : Int} (low : -320 ≤ e) (small : tiny m e = true) :
    m <<< (e + 320).toNat ≤ 2 ^ 116 * 2 ^ 192 := by
  have short : (m.log2 : Int) + e < -12 := of_decide_eq_true small
  exact shiftLeft_le (by omega)

theorem angle_eq {m : Nat} {e angle : Int} (low : -320 ≤ e)
    (whole : ((m <<< (e + 320).toNat : Nat) : Int) = angle) :
    (m * 2 ^ e : ℚ) = angle / 2 ^ 320 := by
  have aligned := aligned_value m low
  rw [sub_neg_eq_add, ← Int.cast_natCast, whole, zpow_neg] at aligned
  exact aligned.symm

/-- The direction `x` is `i` quarter turns and the angle `r` on from east, and its sine and cosine
are computed from these. -/
structure Faces (x : Float32) (i r : Int) : Prop where
  left : Leftover r
  angle : value (view32 x) = (i * quarterTurn + r) / 2 ^ 320
  cosine : Approximates (cos x) (component i r)
  sine : Approximates (sin x) (component (i - 1) r)

section Faces

variable {x : Float32} {s : Sign}

theorem faces_zero (view : view32 x = .zero s) : Faces x 0 0 := by
  have cosine : cos x = 1.0 := by
    unfold cos
    rw [view]
  have sine : sin x = x := by
    unfold sin
    rw [view]
  refine ⟨Nat.zero_le _, ?_, ?_, ?_⟩
  · rw [view, value_zero]
    norm_num
  · have full : component 0 0 = 2 ^ 128 := by decide
    have one : value (view32 1.0) = 1 := by
      show value (.finite .positive (2 ^ 23) (-23) _) = 1
      norm_num [value, Sign.apply]
    rw [cosine, full]
    refine ⟨rfl, ?_⟩
    rw [one]
    norm_num
  · have none : component (0 - 1) 0 = 0 := by decide
    rw [sine, none]
    refine ⟨?_, ?_⟩
    · show (view32 x).isFinite = true
      rw [view]
      rfl
    · rw [view, value_zero]
      norm_num

theorem approximates_sin {m : Nat} {e : Int} {pos : 0 < m} {i r : Int}
    (view : view32 x = .finite s m e pos) (low : -320 ≤ e) (left : Leftover r)
    (whole : ((m <<< (e + 320).toNat : Nat) : Int) = i * quarterTurn + r)
    (both : circle m e = (component (i - 1) r, component i r)) :
    Approximates (sin x) (s.apply (component (i - 1) r)) := by
  unfold sin
  rw [view]
  dsimp only
  rw [both]
  split
  · rename_i small
    have short := shiftLeft_le_of_tiny low small
    have angle := angle_eq low whole
    generalize m <<< (e + 320).toNat = magnitude at short whole
    have none : i = 0 := by
      unfold Leftover quarterTurn at *
      omega
    subst none
    rw [zero_mul, zero_add] at whole angle
    rw [component_left (by decide)]
    refine ⟨?_, ?_⟩
    · show (view32 x).isFinite = true
      rw [view]
      rfl
    · rw [view, value_finite, angle, apply_eq_mul s (sineOf r), mul_div_assoc,
        ← mul_sub, abs_signed]
      exact abs_sub_sineOf_le (by omega) (by omega)
  · refine approximates_ofSigned ?_
    have size : (s.apply (component (i - 1) r)).natAbs = (component (i - 1) r).natAbs := by
      cases s <;> simp [Sign.apply]
    rw [size]
    exact left.natAbs_component_le _

theorem exists_faces (finite : x.isFinite = true) : ∃ i r, Faces x i r := by
  have kept := kept_view32 finite
  cases view : view32 x with
  | notANumber | infinity s => rw [view] at kept; cases kept.finite
  | zero s => exact ⟨0, 0, faces_zero view⟩
  | finite s m e pos =>
    obtain ⟨i, r, left, whole, both⟩ := circle_eq m e
    have cosine : Approximates (cos x) (component i r) := by
      unfold cos
      rw [view]
      dsimp only
      rw [both]
      exact approximates_ofSigned (left.natAbs_component_le i)
    rw [view] at kept
    have least : -149 ≤ e := (canonical_of_unpack (by decide) kept.same).low
    have low : -320 ≤ e := by omega
    have sine := approximates_sin view low left whole both
    have angle := angle_eq low whole
    push_cast at angle
    cases s with
    | positive =>
      refine ⟨i, r, left, ?_, cosine, sine⟩
      rw [view, value_finite, angle, Sign.apply, Int.cast_one, one_mul]
    | negative =>
      -- the other way round the circle
      have flipped : component (-i - 1) (-r) = -component (i - 1) r := by
        rw [show -i - 1 = -(i + 1) by ring, component_neg, show i - 1 = i + 1 - 2 by ring,
          component_sub_two, neg_neg]
      refine ⟨-i, -r, left.neg, ?_, ?_, ?_⟩
      · rw [view, value_finite, angle, Sign.apply]
        push_cast
        rw [neg_one_mul, ← neg_div]
        congr 1
        ring
      · rw [component_neg]
        exact cosine
      · rw [flipped]
        exact sine

/-- A quarter of a turn in radians. -/
def quarter : ℚ := quarterTurn / 2 ^ 320

theorem quarter_bounds :
    (1570796326 / 10 ^ 9 : ℚ) ≤ quarter ∧ quarter ≤ 1570796327 / 10 ^ 9 := by
  have split : (2 ^ 320 : ℚ) = 2 ^ 192 * 2 ^ 128 := by rw [← pow_add]
  unfold quarter quarterTurn
  rw [split, le_div_iff₀ (by positivity), div_le_iff₀ (by positivity)]
  norm_num

variable {y : Float32} {i r t : Int}

theorem Faces.sub_turns (faces : Faces x i r) (t j : Int) :
    |value (view32 x) - (t + 4 * j) * quarter| =
      (((i - t - 4 * j) * quarterTurn + r).natAbs : ℚ) / 2 ^ 320 := by
  have unit : (0 : ℚ) < 2 ^ 320 := by positivity
  rw [faces.angle, quarter, ← mul_div_assoc, ← sub_div, abs_div, abs_of_pos unit,
    Nat.cast_natAbs, Int.cast_abs]
  push_cast
  congr 2
  ring

/-- A direction with a component along an axis is less than a quarter turn away from it, by at least
the size of the component. -/
theorem Faces.exists_turns_of_le (faces : Faces x i r)
    (near : Approximates y (component (i - t) r))
    (some : 3 / 2 ^ 15 + 1 / 2 ^ 20 ≤ value (view32 y)) :
    ∃ j : Int, |value (view32 x) - (t + 4 * j) * quarter| ≤ quarter - 3 / 2 ^ 15 := by
  have size : (3 / 2 ^ 15 : ℚ) ≤ component (i - t) r / 2 ^ 128 := by
    have error := (abs_sub_le_iff.1 near.2).1
    linarith
  rw [le_div_iff₀ (by positivity)] at size
  norm_num at size
  have most : ((3 * 2 ^ 113 : Nat) : Int) ≤ component (i - t) r := by
    norm_num
    exact_mod_cast size
  obtain ⟨j, missing⟩ := faces.left.exists_turns_of_le (by decide) (by decide) most
  refine ⟨j, ?_⟩
  have missing : (((i - t - 4 * j) * quarterTurn + r).natAbs : ℚ) ≤
      quarterTurn - 2 ^ 192 * (3 * 2 ^ 113) := by
    rw [le_sub_iff_add_le]
    exact_mod_cast missing
  have amount : (2 ^ 192 * (3 * 2 ^ 113) / (2 ^ 192 * 2 ^ 128) : ℚ) = 3 / 2 ^ 15 := by norm_num
  rw [faces.sub_turns]
  calc (((i - t - 4 * j) * quarterTurn + r).natAbs : ℚ) / 2 ^ 320
      ≤ (quarterTurn - 2 ^ 192 * (3 * 2 ^ 113)) / 2 ^ 320 := by gcongr
    _ = quarter - 3 / 2 ^ 15 := by rw [quarter, sub_div, ← amount, ← pow_add]

/-- A direction close to an axis has a component along it. -/
theorem Faces.le_of_near {j : Int} (faces : Faces x i r)
    (near : Approximates y (component (i - t) r))
    (close : 4 * |value (view32 x) - (t + 4 * j) * quarter| ≤ quarter) :
    1 / 4 ≤ value (view32 y) := by
  have unit : (0 : ℚ) < 2 ^ 320 := by positivity
  rw [faces.sub_turns, quarter, ← mul_div_assoc, div_le_div_iff_of_pos_right unit] at close
  have long := faces.left.le_component (i := i - t) (j := j) (by exact_mod_cast close)
  have half : (2 ^ 128 : ℚ) ≤ 2 * component (i - t) r := by
    rw [one_eq] at long
    exact_mod_cast long
  have error := (abs_sub_le_iff.1 near.2).2
  linarith

end Faces

end RobotScript.Trigonometry
