import Mathlib.Analysis.SpecialFunctions.Complex.Arg
import RobotScript.Motion.Wall
import RobotScript.Proofs.Number.Reals

/-!
# Arcs in the real numbers

An arc touches the heading of the robot that drives it. It starts so in every quadrant, and neither
driving on nor being thrown back by a wall changes that.
-/

namespace RobotScript

open Scalar (radians degrees fold radians_add radians_sub radians_degrees radians_quarter
  radians_half radians_whole)

/-! ### Points and directions -/

namespace Vec

variable (a b : Vec ℝ) (k angle : ℝ)

@[simp] theorem add_x : (a + b).x = a.x + b.x := rfl
@[simp] theorem add_y : (a + b).y = a.y + b.y := rfl
@[simp] theorem sub_x : (a - b).x = a.x - b.x := rfl
@[simp] theorem sub_y : (a - b).y = a.y - b.y := rfl
@[simp] theorem scale_x : (a.scale k).x = a.x * k := rfl
@[simp] theorem scale_y : (a.scale k).y = a.y * k := rfl
@[simp] theorem ofAngle_x : (ofAngle angle).x = Real.cos angle := rfl
@[simp] theorem ofAngle_y : (ofAngle angle).y = Real.sin angle := rfl

/-- The direction to the right of a heading. -/
noncomputable def rightOf (heading : ℝ) : Vec ℝ := ⟨-Real.sin heading, Real.cos heading⟩

@[simp] theorem rightOf_x (heading : ℝ) : (rightOf heading).x = -Real.sin heading := rfl
@[simp] theorem rightOf_y (heading : ℝ) : (rightOf heading).y = Real.cos heading := rfl

/-- A point is as far away as it is long, in the direction of its angle. -/
theorem ofAngle_atan2 : (ofAngle (Scalar.atan2 a.y a.x)).scale a.length = a := by
  have size : ‖(⟨a.x, a.y⟩ : ℂ)‖ = a.length := by
    rw [Complex.norm_eq_sqrt_sq_add_sq, sq, sq]
    rfl
  ext
  · show Real.cos (Complex.arg ⟨a.x, a.y⟩) * a.length = a.x
    rw [mul_comm, ← size]
    exact Complex.norm_mul_cos_arg _
  · show Real.sin (Complex.arg ⟨a.x, a.y⟩) * a.length = a.y
    rw [mul_comm, ← size]
    exact Complex.norm_mul_sin_arg _

theorem length_eq : a.length = Real.sqrt (a.x * a.x + a.y * a.y) := rfl

theorem length_rightOf (heading radius : ℝ) :
    ((rightOf heading).scale radius).length = |radius| := by
  have unit := Real.sin_sq_add_cos_sq heading
  rw [length_eq, ← Real.sqrt_sq_eq_abs]
  congr 1
  simp only [scale_x, scale_y, rightOf_x, rightOf_y]
  linear_combination radius ^ 2 * unit

end Vec

/-! ### Starting -/

namespace Heading

variable (heading : ℝ)

theorem foldedDegrees_nonneg : 0 ≤ foldedDegrees heading :=
  Scalar.fold_nonneg _ (by norm_num)

theorem foldedDegrees_lt : foldedDegrees heading < 360 := by
  have whole : (0 : ℝ) < 360.0 := by norm_num
  calc foldedDegrees heading < 360.0 := Scalar.fold_lt _ whole
    _ = 360 := by norm_num

/-- Folding takes away full turns. -/
theorem exists_radians_ofFolded (d : ℝ) :
    ∃ k : ℤ, radians (fold d 360.0) = radians d - k * (2 * Real.pi) := by
  have whole : (360.0 : ℝ) = 360 := by norm_num
  refine ⟨⌊d / 360⌋, ?_⟩
  rw [whole, Scalar.fold_eq d (by norm_num), radians_sub, Scalar.radians_eq (_ * 360)]
  ring

theorem cos_ofDegrees (d : ℝ) : Real.cos (ofDegrees d) = Real.cos (radians d) := by
  obtain ⟨k, same⟩ := exists_radians_ofFolded d
  rw [ofDegrees, same, Real.cos_sub_int_mul_two_pi]

theorem sin_ofDegrees (d : ℝ) : Real.sin (ofDegrees d) = Real.sin (radians d) := by
  obtain ⟨k, same⟩ := exists_radians_ofFolded d
  rw [ofDegrees, same, Real.sin_sub_int_mul_two_pi]

theorem cos_foldedDegrees : Real.cos (radians (foldedDegrees heading)) = Real.cos heading := by
  have folded := cos_ofDegrees (degrees heading)
  rwa [radians_degrees] at folded

theorem sin_foldedDegrees : Real.sin (radians (foldedDegrees heading)) = Real.sin heading := by
  have folded := sin_ofDegrees (degrees heading)
  rwa [radians_degrees] at folded

theorem cos_turn (angle : ℝ) : Real.cos (turn heading angle) = Real.cos (heading + angle) :=
  Scalar.cos_fold_tau _

theorem sin_turn (angle : ℝ) : Real.sin (turn heading angle) = Real.sin (heading + angle) :=
  Scalar.sin_fold_tau _

end Heading

namespace Arc

/-- The legs of the triangle between robot and centre, in each of the four quadrants. -/
theorem legs (heading : ℝ) : let d := Heading.foldedDegrees heading
    (Scalar.cos (radians (360.0 - (d + 90.0))) = -Real.sin heading ∧
      Scalar.sin (radians (360.0 - (d + 90.0))) = -Real.cos heading) ∧
    (Scalar.cos (radians (d + 90.0 - 360.0)) = -Real.sin heading ∧
      Scalar.sin (radians (d + 90.0 - 360.0)) = Real.cos heading) ∧
    (Scalar.cos (radians (180.0 - (d + 90.0))) = Real.sin heading ∧
      Scalar.sin (radians (180.0 - (d + 90.0))) = Real.cos heading) ∧
    (Scalar.cos (radians (d - 90.0)) = Real.sin heading ∧
      Scalar.sin (radians (d - 90.0)) = -Real.cos heading) := by
  intro d
  have first : radians (360.0 - (d + 90.0)) = Real.pi / 2 - radians d + Real.pi := by
    rw [radians_sub, radians_add, radians_whole, radians_quarter]
    ring
  have second : radians (d + 90.0 - 360.0) = radians d - Real.pi / 2 - Real.pi := by
    rw [radians_sub, radians_add, radians_whole, radians_quarter]
    ring
  have third : radians (180.0 - (d + 90.0)) = Real.pi / 2 - radians d := by
    rw [radians_sub, radians_add, radians_half, radians_quarter]
    ring
  have fourth : radians (d - 90.0) = radians d - Real.pi / 2 := by
    rw [radians_sub, radians_quarter]
  have cosine : Real.cos (radians d) = Real.cos heading := Heading.cos_foldedDegrees heading
  have sine : Real.sin (radians d) = Real.sin heading := Heading.sin_foldedDegrees heading
  simp only [show (Scalar.cos : ℝ → ℝ) = Real.cos from rfl,
    show (Scalar.sin : ℝ → ℝ) = Real.sin from rfl, first, second, third, fourth, Real.cos_add_pi,
    Real.sin_add_pi, Real.cos_sub_pi, Real.sin_sub_pi, Real.cos_pi_div_two_sub,
    Real.sin_pi_div_two_sub, Real.cos_sub_pi_div_two, Real.sin_sub_pi_div_two, neg_neg, cosine,
    sine, and_self]

/-- The sign of the radius picks the side on which the centre lies. -/
theorem side_eq {position direction right left : Vec ℝ} {radius : ℝ}
    (ahead : right = position + direction.scale |radius|)
    (behind : left = position - direction.scale |radius|) :
    (if radius > 0.0 then right else left) = position + direction.scale radius := by
  have zero : (0.0 : ℝ) = 0 := by norm_num
  split
  · rename_i pos
    rw [ahead, abs_of_pos (zero ▸ pos)]
  · rename_i neg
    rw [behind, abs_of_nonpos (zero ▸ not_lt.1 neg)]
    ext <;> simp

theorem centreOf_eq (position : Vec ℝ) (radius heading : ℝ) :
    centreOf position radius heading = .ok (position + (Vec.rightOf heading).scale radius) := by
  have nonneg := Heading.foldedDegrees_nonneg heading
  have less := Heading.foldedDegrees_lt heading
  obtain ⟨⟨east₁, south₁⟩, ⟨east₂, south₂⟩, ⟨east₃, south₃⟩, ⟨east₄, south₄⟩⟩ := legs heading
  unfold centreOf
  generalize Heading.foldedDegrees heading = d at *
  simp only [east₁, south₁, east₂, south₂, east₃, south₃, east₄, south₄, Bool.and_eq_true,
    decide_eq_true_iff, show (Scalar.abs radius) = |radius| from rfl]
  -- the legs of every quadrant point to the right of the heading
  split
  · exact congrArg _ (side_eq (by ext <;> simp [mul_comm, sub_eq_add_neg])
      (by ext <;> simp [mul_comm, sub_eq_add_neg]))
  split
  · exact congrArg _ (side_eq (by ext <;> simp [mul_comm])
      (by ext <;> simp [mul_comm, sub_eq_add_neg]))
  split
  · exact congrArg _ (side_eq (by ext <;> simp [mul_comm, sub_eq_add_neg])
      (by ext <;> simp [mul_comm, sub_eq_add_neg]))
  split
  · exact congrArg _ (side_eq (by ext <;> simp [mul_comm, sub_eq_add_neg])
      (by ext <;> simp [mul_comm, sub_eq_add_neg]))
  · -- a folded heading lies in one of the quadrants
    rename_i first second third fourth
    norm_num at first second third fourth
    have above := second (first (fourth (third nonneg).le).le).le
    exact absurd less above.not_gt

/-- The angle of an arc is chosen so that its robot is where it should be. -/
theorem position_of_bearing {centre position : Vec ℝ} {radius : ℝ}
    (size : (centre - position).length = |radius|) :
    (⟨centre, radius, radians (position.bearing centre)⟩ : Arc ℝ).position = position := by
  have opposite : radians (position.bearing centre) =
      Scalar.atan2 (centre - position).y (centre - position).x + Real.pi := by
    unfold Vec.bearing
    rw [radians_add, radians_degrees, radians_half, add_comm]
    rfl
  have there := Vec.ofAngle_atan2 (centre - position)
  unfold Arc.position
  dsimp only
  rw [opposite]
  generalize Scalar.atan2 (centre - position).y (centre - position).x = θ at there
  rw [size] at there
  obtain ⟨across, down⟩ := Vec.ext_iff.1 there
  ext
  · show centre.x + Real.cos (θ + Real.pi) * |radius| = position.x
    rw [Real.cos_add_pi]
    simp at across
    linarith
  · show centre.y + Real.sin (θ + Real.pi) * |radius| = position.y
    rw [Real.sin_add_pi]
    simp at down
    linarith

theorem position_beside (position : Vec ℝ) (heading radius : ℝ) :
    let centre := position + (Vec.rightOf heading).scale radius
    (⟨centre, radius, radians (position.bearing centre)⟩ : Arc ℝ).position = position := by
  refine position_of_bearing ?_
  rw [← Vec.length_rightOf heading radius]
  congr 1
  ext <;> simp

/-- Starting an arc succeeds whatever the heading. -/
theorem exists_start (position : Vec ℝ) (heading radius : ℝ) :
    ∃ arc, start position heading radius = .ok arc ∧ arc.radius = radius ∧
      arc.centre = position + (Vec.rightOf heading).scale radius ∧ arc.position = position := by
  unfold start
  rw [centreOf_eq]
  exact ⟨_, rfl, rfl, rfl, position_beside position heading radius⟩

/-! ### Driving on -/

/-- The centre of the arc lies straight to the side of its robot. -/
def Touches (arc : Arc ℝ) (heading : ℝ) : Prop :=
  arc.centre = arc.position + (Vec.rightOf heading).scale arc.radius

variable {arc : Arc ℝ} {heading : ℝ}

theorem touches_iff : arc.Touches heading ↔
    Real.cos arc.angle * |arc.radius| = Real.sin heading * arc.radius ∧
      Real.sin arc.angle * |arc.radius| = -(Real.cos heading * arc.radius) := by
  unfold Touches
  rw [Vec.ext_iff]
  show arc.centre.x = arc.centre.x + Real.cos arc.angle * |arc.radius| +
      -Real.sin heading * arc.radius ∧
    arc.centre.y = arc.centre.y + Real.sin arc.angle * |arc.radius| +
      Real.cos heading * arc.radius ↔ _
  constructor
  · rintro ⟨across, down⟩
    exact ⟨by linarith, by linarith⟩
  · rintro ⟨across, down⟩
    exact ⟨by linarith, by linarith⟩

theorem Touches.advance (touches : arc.Touches heading) (delta : ℝ) :
    (arc.advance delta).Touches (Heading.turn heading delta) := by
  rw [touches_iff] at touches ⊢
  obtain ⟨across, down⟩ := touches
  show Real.cos (arc.angle + delta) * |arc.radius| = _ * arc.radius ∧
    Real.sin (arc.angle + delta) * |arc.radius| = -(_ * arc.radius)
  rw [Heading.cos_turn, Heading.sin_turn]
  simp only [Real.cos_add, Real.sin_add]
  constructor
  · linear_combination Real.cos delta * across - Real.sin delta * down
  · linear_combination Real.cos delta * down + Real.sin delta * across

end Arc

/-! ### Walls -/

inductive Wall where
  | west | east | north | south
deriving DecidableEq, Repr

def NearWalls.has (near : NearWalls) : Wall → Bool
  | .west => near.west
  | .east => near.east
  | .north => near.north
  | .south => near.south

def WallBump.faces (bump : WallBump) : Wall → Bool
  | .west => bump.horizontal == .left
  | .east => bump.horizontal == .right
  | .north => bump.vertical == .up
  | .south => bump.vertical == .down

namespace Wall

variable {α : Type} [Scalar α]

/-- A direction with its component across the wall turned round. -/
def mirror (direction : Vec α) : Wall → Vec α
  | .west | .east => ⟨-direction.x, direction.y⟩
  | .north | .south => ⟨direction.x, -direction.y⟩

/-- Where a wall sends a robot that heads `degrees` from east. -/
def rebound (degrees : α) : Wall → α
  | .west => 180.0 - degrees
  | .east => if degrees ≤ 90.0 then 180.0 - degrees else 540.0 - degrees
  | .north | .south => 360.0 - degrees

end Wall

/-- The wall that throws a robot back, those at the sides before those above and below. -/
def Kinematics.rebounding? {α : Type} [Scalar α] (k : Kinematics α) (arena : Rect α) (margin : α) :
    Option Wall :=
  if (k.wallBump arena margin).bump then
    [.west, .east, .north, .south].find? fun wall =>
      (NearWalls.of arena margin k.position).has wall && (k.wallBump arena margin).faces wall
  else none

theorem Kinematics.bounce?_eq (k : Kinematics ℝ) (arena : Rect ℝ) (margin : ℝ) (offset : Vec ℝ) :
    k.bounce? arena margin offset = (k.rebounding? arena margin).map fun wall =>
      (wall.rebound (Heading.foldedDegrees k.heading), (wall.mirror offset).scale (-1)) := by
  have sideways : (⟨offset.x, -offset.y⟩ : Vec ℝ) = (Vec.scale ⟨-offset.x, offset.y⟩ (-1)) := by
    ext <;> simp
  have upright : (⟨-offset.x, offset.y⟩ : Vec ℝ) = (Vec.scale ⟨offset.x, -offset.y⟩ (-1)) := by
    ext <;> simp
  by_cases bump : (k.wallBump arena margin).bump
  · simp only [bounce?, rebounding?, bump, List.find?_cons, NearWalls.has, WallBump.faces,
      Bool.not_true, if_false, if_true, Bool.false_eq_true]
    split
    · rename_i west
      simp only [west, Option.map_some]
      exact congrArg _ (Prod.ext rfl sideways)
    split
    · rename_i west east
      simp only [west, east, Option.map_some]
      exact congrArg _ (Prod.ext rfl sideways)
    split
    · rename_i west east north
      simp only [west, east, north, Option.map_some]
      exact congrArg _ (Prod.ext rfl upright)
    split
    · rename_i west east north south
      simp only [west, east, north, south, Option.map_some]
      exact congrArg _ (Prod.ext rfl upright)
    · rename_i west east north south
      simp only [west, east, north, south, List.find?_nil, Option.map_none]
  · simp [bounce?, rebounding?, bump]

theorem Kinematics.reflectArc?_of_none {k : Kinematics ℝ} {arena : Rect ℝ} {margin : ℝ}
    (clear : k.rebounding? arena margin = none) (centre : Vec ℝ) :
    k.reflectArc? arena margin centre = none := by
  rw [reflectArc?, bounce?_eq, clear, Option.map_none, Option.map_none]

/-- A robot that has run into a corner is thrown back by the wall at its side. -/
example : (⟨⟨8.0, 395.0⟩, 2.5, 0.0, 0.0, 15.0⟩ : Kinematics Float32).rebounding?
    ⟨⟨0.0, 0.0⟩, ⟨400.0, 400.0⟩⟩ 10.0 = some .west := by
  decide +kernel

namespace Wall

variable (wall : Wall)

theorem radians_rebound (d : ℝ) : Vec.ofAngle (radians (wall.rebound d)) =
    wall.mirror (Vec.ofAngle (radians d)) := by
  have half : radians (180.0 - d) = Real.pi - radians d := by
    rw [radians_sub, radians_half]
  have more : radians (540.0 - d) = Real.pi - radians d + 2 * Real.pi := by
    rw [Scalar.radians_eq, Scalar.radians_eq]
    norm_num
    ring
  have whole : radians (360.0 - d) = 2 * Real.pi - radians d := by
    rw [radians_sub, radians_whole]
  ext <;> cases wall <;> simp only [rebound, mirror, Vec.ofAngle_x, Vec.ofAngle_y]
  case x.east => split <;> simp [half, more, Real.cos_pi_sub]
  case y.east => split <;> simp [half, more, Real.sin_pi_sub]
  all_goals simp [half, whole]

/-- A wall turns the heading's component across it round. -/
theorem ofAngle_rebound (heading : ℝ) :
    Vec.ofAngle (Heading.ofDegrees (wall.rebound (Heading.foldedDegrees heading))) =
      wall.mirror (Vec.ofAngle heading) := by
  have folded : Vec.ofAngle (radians (Heading.foldedDegrees heading)) = Vec.ofAngle heading :=
    Vec.ext (Heading.cos_foldedDegrees heading) (Heading.sin_foldedDegrees heading)
  have unfolded (d : ℝ) : Vec.ofAngle (Heading.ofDegrees d) = Vec.ofAngle (radians d) :=
    Vec.ext (Heading.cos_ofDegrees d) (Heading.sin_ofDegrees d)
  rw [unfolded, radians_rebound, folded]

/-- What was to the right of a mirrored heading is to its left. -/
theorem rightOf_of_mirror {heading heading' : ℝ}
    (mirrored : Vec.ofAngle heading' = wall.mirror (Vec.ofAngle heading)) :
    Vec.rightOf heading' = (wall.mirror (Vec.rightOf heading)).scale (-1) := by
  obtain ⟨across, down⟩ := Vec.ext_iff.1 mirrored
  cases wall <;> simp only [mirror, Vec.ofAngle_x, Vec.ofAngle_y] at across down <;>
    ext <;> simp [mirror, across, down]

end Wall

namespace Arc

variable {arc : Arc ℝ} {k : Kinematics ℝ} {arena : Rect ℝ} {margin : ℝ}

theorem abs_mul_sense (arc : Arc ℝ) : |arc.radius| * arc.sense = arc.radius := by
  have zero : (0.0 : ℝ) = 0 := by norm_num
  have one : (1.0 : ℝ) = 1 := by norm_num
  unfold sense
  rw [zero, one]
  split
  · rename_i left
    rw [abs_of_neg left]
    ring
  · rename_i right
    rw [abs_of_nonneg (not_lt.1 right), mul_one]

/-- The arc that a wall throws back keeps its robot in place and its centre to the robot's side. -/
theorem Touches.reflect (touches : arc.Touches k.heading) (here : k.position = arc.position)
    {wall : Wall} (thrown : k.rebounding? arena margin = some wall) :
    ∃ r, k.reflectArc? arena margin arc.centre = some r ∧
      Vec.ofAngle r.heading = wall.mirror (Vec.ofAngle k.heading) ∧
      r.radius * arc.sense = arc.radius ∧
      (⟨r.centre, arc.radius, r.angle⟩ : Arc ℝ).position = arc.position ∧
      (⟨r.centre, arc.radius, r.angle⟩ : Arc ℝ).Touches r.heading := by
  have mirrored := wall.ofAngle_rebound k.heading
  unfold Kinematics.reflectArc?
  rw [Kinematics.bounce?_eq, thrown]
  refine ⟨_, rfl, mirrored, ?_⟩
  dsimp only
  generalize Heading.ofDegrees (wall.rebound (Heading.foldedDegrees k.heading)) = heading'
    at mirrored
  -- the robot's place as the new centre sees it
  have offset : (wall.mirror (k.position - arc.centre)).scale (-1) =
      (Vec.rightOf heading').scale (-arc.radius) := by
    rw [wall.rightOf_of_mirror mirrored, here, touches]
    cases wall <;> ext <;> simp [Wall.mirror]
  have centre : k.position - (Vec.rightOf heading').scale (-arc.radius) =
      arc.position + (Vec.rightOf heading').scale arc.radius := by
    rw [here]
    ext <;> simp [sub_eq_add_neg]
  have there := position_beside arc.position heading' arc.radius
  rw [offset, centre, Vec.length_rightOf, abs_neg, here]
  refine ⟨abs_mul_sense arc, there, ?_⟩
  unfold Touches
  rw [there]

end Arc

end RobotScript
