import RobotScript.Motion.Kinematics
import RobotScript.Proofs.Number.Accuracy

/-!
# Headings in whole degrees

A heading that was set in whole degrees is sensed in whole degrees as it was set: it is stored in
radians, but what is lost on the way there and back is far less than half a degree.
-/

namespace RobotScript

open Float.Model.UnpackedFloat (Sign)
open Binary

/-! ### Constants -/

theorem value_of_view {x : Float32} {m : Nat} {e : Int} {pos : 0 < m}
    (view : view32 x = .finite .positive m e pos) :
    x.isFinite = true ∧ value (view32 x) = m * 2 ^ e := by
  have finite : (view32 x).isFinite = true := by
    rw [view]
    rfl
  refine ⟨finite, ?_⟩
  rw [view, value_finite]
  exact one_mul _

theorem whole_360 : Whole 360.0 360 := by
  obtain ⟨finite, exact⟩ := @value_of_view 360.0 (360 * 2 ^ 15) (-15) (by decide) rfl
  exact ⟨finite, exact.trans (by norm_num)⟩

theorem whole_270 : Whole 270.0 270 := by
  obtain ⟨finite, exact⟩ := @value_of_view 270.0 (270 * 2 ^ 15) (-15) (by decide) rfl
  exact ⟨finite, exact.trans (by norm_num)⟩

theorem whole_90 : Whole 90.0 90 := by
  obtain ⟨finite, exact⟩ := @value_of_view 90.0 (90 * 2 ^ 17) (-17) (by decide) rfl
  exact ⟨finite, exact.trans (by norm_num)⟩

theorem degreesPerRadian_value : (Scalar.degreesPerRadian : Float32).isFinite = true ∧
    value (view32 Scalar.degreesPerRadian) = 15019745 / 2 ^ 18 := by
  obtain ⟨finite, exact⟩ :=
    @value_of_view Scalar.degreesPerRadian 15019745 (-18) (by decide) rfl
  exact ⟨finite, exact.trans (by norm_num)⟩

theorem moderate_of_mem {q : ℚ} (low : 1 / 1000 ≤ q) (high : q ≤ 1000) : Moderate q := by
  have nonneg : 0 ≤ q := le_trans (by norm_num) low
  unfold Moderate
  rw [abs_of_nonneg nonneg]
  exact ⟨le_trans (by norm_num) low, high.trans (by norm_num)⟩

theorem mul_of_zero {x y : Float32} {s : Sign} (zero : view32 x = .zero s)
    (finite : y.isFinite = true) : ∃ t, view32 (x * y) = .zero t := by
  have known : (view32 y).isFinite = true := finite
  show ∃ t, view32 (.ofModel (.pack (.mul .binary32 (view32 x) (view32 y)))) = .zero t
  rw [zero]
  generalize view32 y = v at known
  cases v with
  | notANumber | infinity t => cases known
  | zero t | finite t => exact ⟨_, (Stored.zero _).view_packed⟩

theorem Binary.Close.bounds {x : Float32} {q : ℚ} (close : Close x q) (nonneg : 0 ≤ q) :
    q - q / 2 ^ 23 ≤ value (view32 x) ∧ value (view32 x) ≤ q + q / 2 ^ 23 := by
  have error := close.2
  rw [abs_of_nonneg nonneg, ← le_div_iff₀ (by norm_num)] at error
  obtain ⟨below, above⟩ := abs_sub_le_iff.1 error
  exact ⟨by linarith, by linarith⟩

/-- There and back between degrees and radians. -/
theorem degrees_radians_near {y : Float32} {r : Int} (whole : Whole y r) (low : 0 ≤ r)
    (high : r < 360) :
    (Scalar.degrees (Scalar.radians y)).isFinite = true ∧
      |value (view32 (Scalar.degrees (Scalar.radians y))) - r| ≤ 1 / 1000 := by
  have ⟨finite, exact⟩ := whole
  obtain ⟨finite', perDegree⟩ := @value_of_view (Scalar.pi / 180.0) 9370165 (-29) (by decide) rfl
  obtain ⟨finite'', perRadian⟩ := degreesPerRadian_value
  rcases low.eq_or_lt with rfl | some
  · obtain ⟨s, zero⟩ := whole.view_eq_zero
    obtain ⟨t, zero⟩ := mul_of_zero zero finite'
    obtain ⟨u, zero⟩ := mul_of_zero zero finite''
    have known : view32 (Scalar.degrees (Scalar.radians y)) = .zero u := zero
    refine ⟨?_, ?_⟩
    · show (view32 (Scalar.degrees (Scalar.radians y))).isFinite = true
      rw [known]
      rfl
    · rw [known, value_zero]
      norm_num
  · have least : (1 : ℚ) ≤ r := by exact_mod_cast some
    have most : (r : ℚ) ≤ 359 := by exact_mod_cast Int.le_of_lt_add_one high
    norm_num at perDegree perRadian
    have there : Close (Scalar.radians y) _ := mul_close finite finite'
      (by rw [exact]; exact moderate_of_mem (by linarith) (by linarith))
      (by rw [exact, perDegree]; exact moderate_of_mem (by linarith) (by linarith))
    rw [exact, perDegree] at there
    have ⟨least', most'⟩ := there.bounds (by linarith)
    have back : Close (Scalar.degrees (Scalar.radians y)) _ := mul_close there.1 finite''
      (moderate_of_mem (by linarith) (by linarith))
      (by rw [perRadian]; exact moderate_of_mem (by linarith) (by linarith))
    rw [perRadian] at back
    have ⟨least'', most''⟩ := back.bounds (by linarith)
    exact ⟨back.1, abs_sub_le_iff.2 ⟨by linarith, by linarith⟩⟩

/-- The sensors of a robot that was turned to a whole number of degrees. -/
theorem Kinematics.senses_of_whole {k : Kinematics Float32} {y : Float32} {r : Int}
    (whole : Whole y r) (low : 0 ≤ r) (high : r < 360) (faces : k.heading = Scalar.radians y) :
    k.angle = -r % 360 ∧ k.compass = (r + 90) % 360 := by
  obtain ⟨finite, near⟩ := degrees_radians_near whole low high
  rw [← faces] at finite near
  obtain ⟨below, above⟩ := abs_sub_le_iff.1 near
  have least : (0 : ℚ) ≤ r := by exact_mod_cast low
  have most : (r : ℚ) ≤ 359 := by exact_mod_cast Int.le_of_lt_add_one high
  have left : Close (360.0 - Scalar.degrees k.heading) _ := sub_close whole_360.1 finite
    (by rw [whole_360.2]; push_cast; exact moderate_of_mem (by linarith) (by linarith))
  have right : Close (Scalar.degrees k.heading + 90.0) _ := add_close finite whole_90.1
    (by rw [whole_90.2]; push_cast; exact moderate_of_mem (by linarith) (by linarith))
  rw [whole_360.2] at left
  rw [whole_90.2] at right
  push_cast at left right
  obtain ⟨lower, upper⟩ := left.bounds (by linarith)
  obtain ⟨lower', upper'⟩ := right.bounds (by linarith)
  have angle : Scalar.round (360.0 - Scalar.degrees k.heading) = 360 - r := by
    refine nearestInt64_eq left.1 ?_ (by omega)
    rw [abs_lt]
    push_cast
    exact ⟨by linarith, by linarith⟩
  have compass : Scalar.round (Scalar.degrees k.heading + 90.0) = r + 90 := by
    refine nearestInt64_eq right.1 ?_ (by omega)
    rw [abs_lt]
    push_cast
    exact ⟨by linarith, by linarith⟩
  unfold Kinematics.angle Kinematics.compass
  rw [angle, compass]
  show (360 - r) % 360 = _ ∧ (r + 90) % 360 = _
  omega

end RobotScript
