import Mathlib.Analysis.SpecialFunctions.Complex.Arg
import RobotScript.Proofs.Engine.Alone
import RobotScript.Proofs.Engine.Effects
import RobotScript.Proofs.Motion.Arcs

/-!
# Sweeps along an arc

A robot on an arc keeps its circle to its side, tick after tick. Walls may throw it back as often as
they like.
-/

namespace RobotScript

/-! ### One tick -/

namespace Kinematics

variable {α : Type} [Scalar α]

/-- The robot a tick further along its arc, before it looks for walls. -/
def ahead (k : Kinematics α) (perTick : α) (arc : Arc α) : Kinematics α :=
  { k with position := (arc.advance perTick).position, heading := Heading.turn k.heading perTick }

variable {k : Kinematics α} {arena : Rect α} {margin perTick : α} {arc : Arc α}

theorem driveArc_of_none
    (clear : (k.ahead perTick arc).reflectArc? arena margin (arc.advance perTick).centre = none) :
    k.driveArc arena margin perTick arc = (arc.advance perTick, k.ahead perTick arc) := by
  unfold driveArc
  dsimp only
  split
  · rename_i reflected
    exact absurd (clear.symm.trans reflected) nofun
  · rfl

theorem driveArc_of_some {r : ArcReflection α}
    (reflected : (k.ahead perTick arc).reflectArc? arena margin (arc.advance perTick).centre =
      some r) :
    k.driveArc arena margin perTick arc =
      (⟨r.centre, r.radius * (arc.advance perTick).sense, r.angle⟩,
        { k.ahead perTick arc with heading := r.heading }) := by
  unfold driveArc
  dsimp only
  split
  · rename_i same
    cases reflected.symm.trans same
    rfl
  · rename_i clear
    exact absurd (reflected.symm.trans clear) nofun

end Kinematics

/-- The arc and the heading that a tick leads to. The robot goes on, or is thrown back by a wall at
the place it has come to. -/
inductive Robot.Sweeps (r : Robot ℝ) (perTick : ℝ) (arc : Arc ℝ) : Arc ℝ → ℝ → Prop
  | on (clear : (r.motion.ahead perTick arc).rebounding? r.arena r.wallMargin = none) :
    Sweeps r perTick arc (arc.advance perTick) (Heading.turn r.motion.heading perTick)
  | back {wall : Wall} {arc' : Arc ℝ} {heading' : ℝ}
    (thrown : (r.motion.ahead perTick arc).rebounding? r.arena r.wallMargin = some wall)
    (place : arc'.position = (arc.advance perTick).position)
    (mirrored : Vec.ofAngle heading' =
      wall.mirror (Vec.ofAngle (Heading.turn r.motion.heading perTick))) :
    Sweeps r perTick arc arc' heading'

namespace Manoeuvre

variable {r : Robot ℝ} {arc : Arc ℝ}

/-- The arc keeps its radius, sign included, and stays at the side of the robot. -/
theorem tick_sweep (touches : arc.Touches r.motion.heading) (perTick : ℝ) :
    ∃ arc' r', (sweep perTick arc).tick r = (.sweep perTick arc', r') ∧
      r.Sweeps perTick arc arc' r'.motion.heading ∧ arc'.radius = arc.radius ∧
      arc'.Touches r'.motion.heading := by
  let driven := r.motion.driveArc r.arena r.wallMargin perTick arc
  refine ⟨driven.1, r.update fun _ => driven.2, rfl, ?_⟩
  show r.Sweeps perTick arc driven.1 driven.2.heading ∧ _ ∧ driven.1.Touches driven.2.heading
  have advanced := touches.advance perTick
  cases thrown : (r.motion.ahead perTick arc).rebounding? r.arena r.wallMargin with
  | none =>
    have clear : driven = _ :=
      Kinematics.driveArc_of_none (Kinematics.reflectArc?_of_none thrown _)
    rw [clear]
    exact ⟨.on thrown, rfl, advanced⟩
  | some wall =>
    obtain ⟨reflection, reflected, mirrored, radius, place, touches'⟩ :=
      Arc.Touches.reflect (k := r.motion.ahead perTick arc) advanced rfl thrown
    have thrownBack : driven = _ := Kinematics.driveArc_of_some reflected
    rw [radius] at thrownBack
    rw [thrownBack]
    exact ⟨.back thrown place mirrored, rfl, touches'⟩

/-! ### Whole runs -/

theorem after_sweep (touches : arc.Touches r.motion.heading) (perTick : ℝ) (n : Nat) :
    ∃ arc' r', (sweep perTick arc).after r n = (.sweep perTick arc', r') ∧
      arc'.radius = arc.radius ∧ arc'.Touches r'.motion.heading := by
  induction n with
  | zero => exact ⟨arc, r, rfl, rfl, touches⟩
  | succ n ih =>
    obtain ⟨arc₁, r₁, before, radius₁, touches₁⟩ := ih
    obtain ⟨arc₂, r₂, ticked, -, radius₂, touches₂⟩ := tick_sweep touches₁ perTick
    refine ⟨arc₂, r₂, ?_, radius₂.trans radius₁, touches₂⟩
    rw [after, before, ticked]

end Manoeuvre

namespace Engine

section Commands

variable {α : Type} [Scalar α] {e : Engine α} {radius degrees : α} {timing : Option Timing}
  {arc : Arc α} (turns : (degrees == 0.0) = false)
  (started : Arc.start e.robot.motion.position e.robot.motion.heading radius = .ok arc)
include turns started

theorem perform_arc_at_once (instant : duration? timing = none) :
    let sweep := Scalar.radians (Scalar.abs degrees) * arc.sense
    e.perform (.arc radius degrees timing) =
      (.ok .nothing, { e with robot := e.robot.update (·.ahead sweep arc) }) := by
  simp only [perform, turns, Engine.arc, started, instant, Bool.false_eq_true, if_false]
  rfl

/-- A timed arc leaves a sweep along the arc that starts where its robot is. Only the wheels of the
robot change. -/
theorem perform_arc_timed {tenths : UInt32} (lasts : duration? timing = some tenths) :
    let ticks := e.settings.ticksForTenths tenths
    let sweep := Scalar.radians (Scalar.abs degrees) * arc.sense
    ∃ left right, e.perform (.arc radius degrees timing) =
      (.ok (schedule timing ⟨"ARC", ticks, .sweep (sweep / Scalar.ofNat ticks) arc⟩),
        { e with robot := e.robot.setWheelRps left right }) := by
  simp only [perform, turns, Engine.arc, started, lasts, Bool.false_eq_true, if_false]
  split
  · exact ⟨_, _, rfl⟩
  · exact ⟨_, _, rfl⟩

end Commands

theorem job?_schedule {α : Type} (timing : Option Timing) (job : Job α) :
    (schedule timing job).job? = some job := by
  unfold schedule
  split <;> rfl

end Engine

/-- Every part of a sweep goes the way of its arc. -/
theorem Arc.sweep_mul_sense_nonneg (degrees : ℝ) (ticks : Nat) (arc : Arc ℝ) :
    0 ≤ Scalar.radians (Scalar.abs degrees) * arc.sense / Scalar.ofNat ticks * arc.sense := by
  have size : 0 ≤ Scalar.radians (Scalar.abs degrees) := by
    rw [Scalar.radians_eq]
    exact mul_nonneg (abs_nonneg degrees) (by positivity)
  have square : 0 ≤ arc.sense * arc.sense := mul_self_nonneg arc.sense
  calc (0 : ℝ) ≤ Scalar.radians (Scalar.abs degrees) * (arc.sense * arc.sense) / (ticks : ℝ) := by
        positivity
    _ = Scalar.radians (Scalar.abs degrees) * arc.sense / (ticks : ℝ) * arc.sense := by ring

/-- An arc starts with its centre straight at the side of the robot, at the distance of its radius,
and with the robot in its place. However it is swept and whatever walls throw it back, after every
tick it still has that radius, sign included, and its centre at that side of the robot. The next
tick takes it on, or has the robot thrown back from where it has come to, with the part of its
heading that leads across the wall turned round. The job of an arc command is such a sweep. -/
theorem arcs_stay_tangent (r : Robot ℝ) (position : Vec ℝ) (radius : ℝ) :
    ∃ arc, Arc.start position r.motion.heading radius = .ok arc ∧
      arc.centre = position + (Vec.rightOf r.motion.heading).scale radius ∧
      arc.position = position ∧
      (∀ perTick n, ∃ arc₁ r₁,
        (Manoeuvre.sweep perTick arc).after r n = (.sweep perTick arc₁, r₁) ∧
        arc₁.centre = arc₁.position + (Vec.rightOf r₁.motion.heading).scale arc₁.radius ∧
        arc₁.radius = radius ∧
        ∃ arc₂ r₂, (Manoeuvre.sweep perTick arc₁).tick r₁ = (.sweep perTick arc₂, r₂) ∧
          r₁.Sweeps perTick arc₁ arc₂ r₂.motion.heading) ∧
      ∀ (e : Engine ℝ) (degrees : ℝ) (timing : Option Timing),
        e.robot.motion.position = position → e.robot.motion.heading = r.motion.heading →
        ∃ errand e₁, e.perform (.arc radius degrees timing) = (.ok errand, e₁) ∧
          ∀ job ∈ errand.job?, ∃ perTick, job.manoeuvre = .sweep perTick arc ∧
            0 ≤ perTick * arc.sense ∧ e₁.robot.motion.heading = r.motion.heading := by
  obtain ⟨arc, started, same, centre, here⟩ := Arc.exists_start position r.motion.heading radius
  have touches : arc.Touches r.motion.heading := by
    rw [Arc.Touches, here, centre, same]
  refine ⟨arc, started, centre, here, ?_, ?_⟩
  · intro perTick n
    obtain ⟨arc₁, r₁, swept, radius₁, touches₁⟩ := Manoeuvre.after_sweep touches perTick n
    obtain ⟨arc₂, r₂, ticked, sweeps, -, -⟩ := Manoeuvre.tick_sweep touches₁ perTick
    exact ⟨arc₁, r₁, swept, touches₁, radius₁.trans same, arc₂, r₂, ticked, sweeps⟩
  · rintro e degrees timing rfl heading
    rw [← heading] at started
    cases turns : degrees == 0.0 with
    | true => exact ⟨.nothing, e, by rw [Engine.perform, if_pos turns], nofun⟩
    | false =>
      cases lasts : Engine.duration? timing with
      | none => exact ⟨_, _, Engine.perform_arc_at_once turns started lasts, nofun⟩
      | some tenths =>
        obtain ⟨left, right, performed⟩ := Engine.perform_arc_timed turns started lasts
        refine ⟨_, _, performed, ?_⟩
        intro job left
        rw [Engine.job?_schedule, Option.mem_some_iff] at left
        subst left
        exact ⟨_, rfl, Arc.sweep_mul_sense_nonneg .., heading⟩

end RobotScript
