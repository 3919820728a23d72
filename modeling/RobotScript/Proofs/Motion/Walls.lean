import RobotScript.Engine.Job
import RobotScript.Proofs.Motion.Arcs
import RobotScript.Proofs.Motion.Headings
import RobotScript.Proofs.Number.Circle

/-!
# Driving into walls

A robot is told to turn round only at a wall that it drives into. It is not told so at every such
wall: whole degrees lead away from the east wall at 90 and 270 degrees already, and from the north
wall at 0 and 180 degrees, while a heading with these whole degrees may still lead into the wall.
-/

namespace RobotScript

open Binary Trigonometry

namespace Wall

/-- Quarter turns from east. -/
def turns : Wall → Int
  | east => 0
  | south => 1
  | west => 2
  | north => 3

def opposite : Wall → Wall
  | east => west
  | south => north
  | west => east
  | north => south

/-- The component of a direction along the outward normal of a wall. -/
def outward : Wall → Vec Float32 → Float32
  | east, v => v.x
  | south, v => v.y
  | west, v => -v.x
  | north, v => -v.y

/-- Whole degrees from 0 to 359 that count as leading towards a wall. -/
def Ahead (d : Int) : Wall → Prop
  | east => ¬(90 ≤ d ∧ d ≤ 270)
  | south => 0 ≤ d ∧ d ≤ 180
  | west => 90 ≤ d ∧ d ≤ 270
  | north => ¬(0 ≤ d ∧ d ≤ 180)

/-- Whole degrees at which a heading may lead into a wall unnoticed. -/
def blind : Wall → List Int
  | east => [90, 270]
  | north => [0, 180]
  | south | west => []

end Wall

namespace Kinematics

/-- The wall is near, and the heading has a component into it. -/
def DrivesInto (k : Kinematics Float32) (arena : Rect Float32) (margin : Float32) (w : Wall) :
    Prop :=
  (k.nearWalls arena margin).has w = true ∧
    parallelTolerance < w.outward (Vec.along k.heading 1.0)

/-- The robot drives into a wall that its whole degrees do not lead away from, or do so towards
another near one. -/
def Notices (k : Kinematics Float32) (arena : Rect Float32) (margin : Float32) : Prop :=
  ∃ w, k.DrivesInto arena margin w ∧
    ((∃ d ∈ Heading.wholeDegrees? k.heading, d ∈ w.blind) →
      (k.nearWalls arena margin).has w.opposite = true)

/-- The state with which a robot probes the walls before it drives on. -/
def probe (k : Kinematics Float32) (perTick : Float32) : Kinematics Float32 :=
  { k with heading := if perTick < 0.0 then k.heading + Scalar.pi else k.heading }

/-- A step in the direction `heading`. -/
def advance (k : Kinematics Float32) (heading perTick : Float32) : Kinematics Float32 :=
  { k with heading := heading, position := k.position + Vec.along heading perTick }

end Kinematics

/-! ### Headings in degrees -/

section Degrees

variable {x : Float32} {i r d : Int}

/-- An angle in degrees, with the factor that single precision has for it. -/
def inDegrees (angle : ℚ) : ℚ := angle * (15019745 / 2 ^ 18)

/-- A quarter turn as the conversion to degrees has it. -/
theorem inDegrees_quarter_bounds :
    90 ≤ inDegrees quarter ∧ inDegrees quarter ≤ 90 + 1 / 2 ^ 19 := by
  obtain ⟨low, high⟩ := quarter_bounds
  unfold inDegrees
  exact ⟨by linarith, by linarith⟩

/-- Whole degrees are off a moderate heading by little more than one degree. -/
theorem exists_wholeDegrees (finite : x.isFinite = true) (small : |value (view32 x)| ≤ 512) :
    ∃ d : Int, Heading.wholeDegrees? x = some (d % 360) ∧
      |d - inDegrees (value (view32 x))| < 1 + 1 / 2 ^ 8 := by
  obtain ⟨finite', exact⟩ := degreesPerRadian_value
  have size : |inDegrees (value (view32 x))| ≤ 29336 := by
    rw [inDegrees, abs_mul]
    norm_num
    linarith
  obtain ⟨finite'', error⟩ := mul_near finite finite'
    (.inr (by rw [exact]; norm_num)) (by rw [exact]; exact size.trans (by norm_num))
  rw [exact] at error
  have error : |value (view32 (x * Scalar.degreesPerRadian)) -
      inDegrees (value (view32 x))| ≤ 29336 / 2 ^ 23 :=
    error.trans (max_le (div_le_div_of_nonneg_right size (by norm_num)) (by norm_num))
  obtain ⟨above, below⟩ := abs_sub_le_iff.1 error
  obtain ⟨least, most⟩ := abs_le.1 size
  have whole := abs_truncInt64_sub_lt finite'' (by rw [abs_lt]; constructor <;> linarith)
  refine ⟨truncInt64 (view32 (x * Scalar.degreesPerRadian)), if_pos finite, ?_⟩
  obtain ⟨above', below'⟩ := abs_sub_lt_iff.1 whole
  rw [abs_sub_lt_iff]
  exact ⟨by linarith, by linarith⟩

/-- As many quarter turns as make up a moderate heading take little more than 90 degrees each. -/
theorem turns_degrees_bounds {n : Int} (small : n.natAbs ≤ 330) :
    |n * inDegrees quarter - n * 90| ≤ 330 / 2 ^ 19 := by
  obtain ⟨least, most⟩ := inDegrees_quarter_bounds
  have few : (|n| : ℚ) ≤ 330 := by
    rw [← Int.cast_abs, ← Nat.cast_natAbs]
    exact_mod_cast small
  rw [← mul_sub, abs_mul, abs_of_nonneg (by linarith : (0 : ℚ) ≤ _ - 90)]
  calc |(n : ℚ)| * (inDegrees quarter - 90) ≤ 330 * (1 / 2 ^ 19) := by
        gcongr
        linarith
    _ = 330 / 2 ^ 19 := by norm_num

theorem natAbs_le_of_mul_quarter {n : Int} (small : |n * quarter| ≤ 514) : n.natAbs ≤ 330 := by
  obtain ⟨low, -⟩ := quarter_bounds
  rw [abs_mul, abs_of_nonneg (by linarith : 0 ≤ quarter)] at small
  have few : (n.natAbs : ℚ) < 331 := by
    rw [Nat.cast_natAbs, Int.cast_abs]
    have := mul_le_mul_of_nonneg_left low (abs_nonneg (n : ℚ))
    linarith
  exact Nat.le_of_lt_succ (by exact_mod_cast few)

/-- Less than a quarter turn away is at most 90 whole degrees away. -/
theorem natAbs_sub_le_of_turns {n : Int} (small : |value (view32 x)| ≤ 512)
    (near : |d - inDegrees (value (view32 x))| < 1 + 1 / 2 ^ 8)
    (within : |value (view32 x) - n * quarter| ≤ quarter - 3 / 2 ^ 15) :
    (d - 90 * n).natAbs ≤ 90 := by
  obtain ⟨low, high⟩ := quarter_bounds
  generalize value (view32 x) = angle at *
  obtain ⟨least, most⟩ := abs_le.1 small
  obtain ⟨above, below⟩ := abs_le.1 within
  have few : n.natAbs ≤ 330 := natAbs_le_of_mul_quarter (abs_le.2 ⟨by linarith, by linarith⟩)
  obtain ⟨above', below'⟩ := abs_sub_le_iff.1 (turns_degrees_bounds few)
  obtain ⟨left, right⟩ := abs_sub_lt_iff.1 near
  obtain ⟨least', most'⟩ := inDegrees_quarter_bounds
  -- what is missing to a quarter turn makes up for all that was lost on the way to degrees
  have upper : inDegrees angle ≤ inDegrees (n * quarter + quarter - 3 / 2 ^ 15) := by
    unfold inDegrees
    gcongr
    linarith
  have lower : inDegrees (n * quarter - quarter + 3 / 2 ^ 15) ≤ inDegrees angle := by
    unfold inDegrees
    gcongr
    linarith
  unfold inDegrees at *
  have upper : (d - 90 * n : ℚ) < 91 := by linarith
  have lower : (-91 : ℚ) < d - 90 * n := by linarith
  have upper : d - 90 * n < 91 := by exact_mod_cast upper
  have lower : -91 < d - 90 * n := by exact_mod_cast lower
  omega

/-- A whole number of right angles is a heading close to as many quarter turns. -/
theorem near_turns_of_eq {n : Int} (small : |value (view32 x)| ≤ 512)
    (near : |d - inDegrees (value (view32 x))| < 1 + 1 / 2 ^ 8) (same : d = 90 * n) :
    4 * |value (view32 x) - n * quarter| ≤ quarter := by
  obtain ⟨low, high⟩ := quarter_bounds
  generalize value (view32 x) = angle at *
  obtain ⟨least, most⟩ := abs_le.1 small
  obtain ⟨above, below⟩ := abs_sub_lt_iff.1 near
  have exact : (d : ℚ) = 90 * n := by exact_mod_cast same
  rw [exact] at above below
  unfold inDegrees at above below
  have few : n.natAbs ≤ 330 := by
    have upper : n < 331 := by exact_mod_cast (by linarith : (n : ℚ) < 331)
    have lower : -331 < n := by exact_mod_cast (by linarith : (-331 : ℚ) < n)
    omega
  obtain ⟨above', below'⟩ := abs_sub_le_iff.1 (turns_degrees_bounds few)
  unfold inDegrees at above' below'
  have off : |angle - n * quarter| ≤ 1 / 10 := by
    rw [abs_sub_le_iff]
    exact ⟨by linarith, by linarith⟩
  linarith

theorem approximates_outward (faces : Faces x i r) (w : Wall) :
    Approximates (w.outward (Vec.along x 1.0)) (component (i - w.turns) r) := by
  have cosine := faces.cosine.mul_one
  have sine := faces.sine.mul_one
  cases w with
  | east =>
    rw [Wall.turns, sub_zero]
    exact cosine
  | south => exact sine
  | west =>
    rw [Wall.turns, component_sub_two]
    exact cosine.neg
  | north =>
    rw [Wall.turns, show i - 3 = i - 1 - 2 by ring, component_sub_two]
    exact sine.neg

theorem parallelTolerance_value : (Kinematics.parallelTolerance : Float32).isFinite = true ∧
    value (view32 Kinematics.parallelTolerance) = 13743895 / 2 ^ 37 := by
  obtain ⟨finite, exact⟩ :=
    @value_of_view Kinematics.parallelTolerance 13743895 (-37) (by decide) rfl
  exact ⟨finite, exact.trans (by norm_num)⟩

/-- A moderate heading has a component into a wall only if it is within 90 whole degrees of its
normal, and always if it is that normal in whole degrees. -/
theorem exists_degrees (finite : x.isFinite = true) (small : |value (view32 x)| ≤ 512) :
    ∃ d, Heading.wholeDegrees? x = some d ∧ (0 ≤ d ∧ d < 360) ∧ ∀ w : Wall,
      (Kinematics.parallelTolerance < w.outward (Vec.along x 1.0) →
        (d - 90 * w.turns + 90) % 360 ≤ 180) ∧
      (d = 90 * w.turns → Kinematics.parallelTolerance < w.outward (Vec.along x 1.0)) := by
  obtain ⟨finite', tolerance⟩ := parallelTolerance_value
  obtain ⟨d, whole, near⟩ := exists_wholeDegrees finite small
  obtain ⟨i, r, faces⟩ := exists_faces finite
  refine ⟨d % 360, whole, by omega, fun w => ?_⟩
  have outward := approximates_outward faces w
  rw [lt_iff_value_lt finite' outward.1, tolerance]
  constructor
  · intro into
    obtain ⟨j, within⟩ := faces.exists_turns_of_le outward (by linarith)
    have apart := natAbs_sub_le_of_turns (n := w.turns + 4 * j) small near
      (by push_cast; exact within)
    omega
  · intro same
    have close := near_turns_of_eq (n := w.turns + 4 * (d / 360)) small near (by omega)
    push_cast at close
    have long := faces.le_of_near outward (j := d / 360) (by exact close)
    linarith

end Degrees

/-! ### Walls ahead -/

namespace Wall

variable {w w' : Wall} {d : Int}

theorem exists_iff {p : Wall → Prop} : (∃ w, p w) ↔ p east ∨ p south ∨ p west ∨ p north := by
  constructor
  · rintro ⟨_ | _ | _ | _, holds⟩ <;> simp [holds]
  · rintro (holds | holds | holds | holds) <;> exact ⟨_, holds⟩

theorem blind_cases (hidden : d ∈ w.blind) :
    w = east ∧ (d = 90 ∨ d = 270) ∨ w = north ∧ (d = 0 ∨ d = 180) := by
  cases w <;> simp_all [blind]

theorem ahead_of_not_blind (range : 0 ≤ d ∧ d < 360) (within : (d - 90 * w.turns + 90) % 360 ≤ 180)
    (seen : d ∉ w.blind) : w.Ahead d := by
  cases w <;> simp only [blind, turns, Ahead, List.mem_cons, List.not_mem_nil, or_false] at * <;>
    omega

theorem ahead_opposite (hidden : d ∈ w.blind) : w.opposite.Ahead d := by
  obtain ⟨rfl, rfl | rfl⟩ | ⟨rfl, rfl | rfl⟩ := blind_cases hidden <;> simp [opposite, Ahead]

/-- In whole degrees that are blind for a wall, the robot faces the wall to the left or the right of
it. -/
theorem straight_of_blind (hidden : d ∈ w.blind) (ahead : w'.Ahead d) (other : w' ≠ w.opposite) :
    d = 90 * w'.turns ∧ d ∉ w'.blind := by
  obtain ⟨rfl, rfl | rfl⟩ | ⟨rfl, rfl | rfl⟩ := blind_cases hidden <;> cases w' <;>
    simp [Ahead, opposite, turns, blind] at *

end Wall

theorem Robot.update_congr {r : Robot Float32} {f g : Kinematics Float32 → Kinematics Float32}
    (same : f r.motion = g r.motion) : r.update f = r.update g := by
  unfold Robot.update
  rw [same]

namespace Kinematics

variable {k : Kinematics Float32} {arena : Rect Float32} {margin : Float32} {d : Int}

theorem bump_iff (whole : Heading.wholeDegrees? k.heading = some d) :
    (k.wallBump arena margin).bump = true ↔
      ∃ w, (k.nearWalls arena margin).has w = true ∧ w.Ahead d := by
  rw [Wall.exists_iff]
  simp only [wallBump, Heading.horizontal, Heading.vertical, whole, NearWalls.has, Wall.Ahead]
  split <;> split <;> simp [*]
  tauto

theorem headsIntoWall_iff (finite : k.heading.isFinite = true) :
    k.headsIntoWall arena margin = true ↔
      (k.wallBump arena margin).bump = true ∧ ∃ w, k.DrivesInto arena margin w := by
  obtain ⟨finite', -⟩ := parallelTolerance_value
  obtain ⟨i, r, faces⟩ := exists_faces finite
  have sideways : (Vec.along k.heading 1.0).x.isFinite = true := faces.cosine.mul_one.1
  have upright : (Vec.along k.heading 1.0).y.isFinite = true := faces.sine.mul_one.1
  rw [Wall.exists_iff]
  unfold headsIntoWall DrivesInto
  generalize Vec.along k.heading 1.0 = direction at *
  generalize k.nearWalls arena margin = near
  have west := lt_neg_iff sideways finite'
  have north := lt_neg_iff upright finite'
  simp only [Bool.and_eq_true, Bool.or_eq_true, decide_eq_true_iff, NearWalls.has, Wall.outward,
    gt_iff_lt]
  rw [west, north]
  simp only [or_assoc, or_comm, or_left_comm]

theorem headsIntoWall_iff_notices (finite : k.heading.isFinite = true)
    (small : |value (view32 k.heading)| ≤ 512) :
    k.headsIntoWall arena margin = true ↔ k.Notices arena margin := by
  obtain ⟨d, whole, range, degrees⟩ := exists_degrees finite small
  have hides (w : Wall) : (∃ d ∈ Heading.wholeDegrees? k.heading, d ∈ w.blind) ↔ d ∈ w.blind := by
    simp [whole]
  rw [headsIntoWall_iff finite, bump_iff whole]
  unfold Notices
  simp only [hides]
  constructor
  · rintro ⟨⟨w', near, ahead⟩, w, into⟩
    by_cases other : w' = w.opposite
    · exact ⟨w, into, fun _ => other ▸ near⟩
    · by_cases hidden : d ∈ w.blind
      · -- the wall to the side is the one that makes the bump
        obtain ⟨straight, seen⟩ := Wall.straight_of_blind hidden ahead other
        exact ⟨w', ⟨near, (degrees w').2 straight⟩, fun blind => absurd blind seen⟩
      · exact ⟨w, into, fun blind => absurd blind hidden⟩
  · rintro ⟨w, into, noticed⟩
    refine ⟨?_, w, into⟩
    by_cases hidden : d ∈ w.blind
    · exact ⟨w.opposite, noticed hidden, Wall.ahead_opposite hidden⟩
    · exact ⟨w, into.1, Wall.ahead_of_not_blind range ((degrees w).1 into.2) hidden⟩

theorem driveStraight_eq (k : Kinematics Float32) (arena : Rect Float32)
    (margin perTick : Float32) :
    k.driveStraight arena margin perTick =
      k.advance (if (k.probe perTick).headsIntoWall arena margin then
        Heading.turn k.heading Scalar.pi else k.heading) perTick := rfl

/-- A robot is told to turn round only if it drives into a wall, and then exactly if it notices it.
In a timed drive it turns round on the tick on which it is told so, and on no other. The conversion
to degrees is accurate enough for headings of up to 512 radians, or 81 turns. -/
theorem turns_round_iff_notices (k : Kinematics Float32) (arena : Rect Float32) (margin : Float32)
    (finite : k.heading.isFinite = true) :
    (k.headsIntoWall arena margin = true → ∃ w, k.DrivesInto arena margin w) ∧
      (|value (view32 k.heading)| ≤ 512 →
        (k.headsIntoWall arena margin = true ↔ k.Notices arena margin) ∧
        ∀ (r : Robot Float32) (perTick : Float32), r.motion.probe perTick = k → r.arena = arena →
          r.wallMargin = margin →
            (k.Notices arena margin → ((Manoeuvre.straight perTick).tick r).2 =
              r.update (·.advance (Heading.turn r.motion.heading Scalar.pi) perTick)) ∧
            (¬k.Notices arena margin → ((Manoeuvre.straight perTick).tick r).2 =
              r.update (·.advance r.motion.heading perTick))) := by
  refine ⟨fun told => ((headsIntoWall_iff finite).1 told).2, fun small => ?_⟩
  have exact : k.headsIntoWall arena margin = true ↔ k.Notices arena margin :=
    headsIntoWall_iff_notices finite small
  refine ⟨exact, ?_⟩
  rintro r perTick rfl rfl rfl
  rw [← exact]
  show (_ → r.update (·.driveStraight r.arena r.wallMargin perTick) = _) ∧
    (_ → r.update (·.driveStraight r.arena r.wallMargin perTick) = _)
  constructor
  · intro blocked
    exact Robot.update_congr (by rw [driveStraight_eq, if_pos blocked])
  · intro free
    exact Robot.update_congr (by rw [driveStraight_eq, if_neg free])

/-- In the north-eastern corner, heading a little to the east of north: the east wall is overlooked,
the north wall is not. -/
def cornered : Robot Float32 :=
  { name := "Rover"
    arena := ⟨⟨0.0, 0.0⟩, ⟨400.0, 400.0⟩⟩
    wallMargin := 10.0
    wheelDiameter := 5.0
    wheelMaxRps := 2.0
    motion := ⟨⟨390.0, 10.0⟩, 4.72, 0.0, 0.0, 15.0⟩
    color := .red
    mood := .happy
    status := .stopped }

theorem turns_round_cornered :
    (cornered.motion.probe 2.0).heading.isFinite = true ∧
      |value (view32 (cornered.motion.probe 2.0).heading)| ≤ 512 ∧
      (cornered.motion.probe 2.0).headsIntoWall cornered.arena cornered.wallMargin = true ∧
      (∃ w, (cornered.motion.probe 2.0).DrivesInto cornered.arena cornered.wallMargin w) ∧
      ((Manoeuvre.straight 2.0).tick cornered).2 =
        cornered.update (·.advance (Heading.turn cornered.motion.heading Scalar.pi) 2.0) := by
  have finite : (cornered.motion.probe 2.0).heading.isFinite = true := by decide +kernel
  have small : |value (view32 (cornered.motion.probe 2.0).heading)| ≤ 512 := by decide +kernel
  have told : (cornered.motion.probe 2.0).headsIntoWall cornered.arena cornered.wallMargin =
      true := by
    decide +kernel
  obtain ⟨sound, complete⟩ :=
    turns_round_iff_notices (cornered.motion.probe 2.0) cornered.arena cornered.wallMargin finite
  obtain ⟨noticed, ticks⟩ := complete small
  exact ⟨finite, small, told, sound told, (ticks cornered 2.0 rfl rfl rfl).1 (noticed.1 told)⟩

/-- The north wall is overlooked if no other one is near. -/
theorem overlooks_north_wall :
    ¬∀ (k : Kinematics Float32) (arena : Rect Float32) (margin : Float32),
      k.heading.isFinite = true →
        (k.headsIntoWall arena margin = true ↔ ∃ w, k.DrivesInto arena margin w) := by
  intro exact
  have told := (exact ⟨⟨200.0, 10.0⟩, 3.15, 0.0, 0.0, 15.0⟩ ⟨⟨0.0, 0.0⟩, ⟨400.0, 400.0⟩⟩ 10.0
    (by decide +kernel)).2 ⟨.north, by decide +kernel, by decide +kernel⟩
  revert told
  decide +kernel

end Kinematics

end RobotScript
