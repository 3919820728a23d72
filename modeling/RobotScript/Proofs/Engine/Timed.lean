import Mathlib.Analysis.SpecialFunctions.Complex.Arg
import RobotScript.Proofs.Engine.Sweeps
import RobotScript.Proofs.Robot.Margin

/-!
# Timed and instant motion

A timed motion is cut into ticks. Without rounding, and with no wall in the way, the ticks add up to
what the command does at once when it is given no time.
-/

namespace RobotScript

/-! ### Carrying out a command -/

namespace Engine

variable {α : Type} [Scalar α]

/-- A command and the whole drive of the job it leaves to its caller. The answer is whether that was
completed. -/
def carryOut (e : Engine α) (stopAfter : Nat → Bool) (command : Command α) :
    Except HeadingError Bool × Engine α :=
  match e.apply command with
  | (.ok .finished, e) => (.ok true, e)
  | (.ok (.deferred job), e) =>
    let (completed, d) := e.drive stopAfter false job
    (.ok completed, d.engine)
  | (.error fault, e) => (.error fault, e)

/-- With `tenths` to carry it out and at once, a command has the same outcome, as far as `same` can
tell, unless it is cancelled. -/
def Agrees (e : Engine α) (stopAfter : Nat → Bool) (command : Option Timing → Command α)
    (tenths : UInt32) (same : Robot α → Robot α → Prop) : Prop :=
  ∃ completed timed instant,
    e.carryOut stopAfter (command (some ⟨tenths, false⟩)) = (.ok completed, timed) ∧
    e.carryOut stopAfter (command none) = (.ok true, instant) ∧
    (e.running = true → (∀ i, stopAfter i = false) → completed = true) ∧
    (completed = true → same timed.robot instant.robot)

variable {e instant : Engine α} {stopAfter : Nat → Bool} {command : Option Timing → Command α}
  {tenths : UInt32} {same : Robot α → Robot α → Prop}

theorem agrees_of_instant
    (performed : e.perform (command (some ⟨tenths, false⟩)) = (.ok .nothing, instant))
    (atOnce : e.perform (command none) = (.ok .nothing, instant))
    (refl : same instant.robot instant.robot) : e.Agrees stopAfter command tenths same := by
  refine ⟨true, instant, instant, ?_, ?_, fun _ _ => rfl, fun _ => refl⟩
  · rw [carryOut, apply, performed]
    rfl
  · rw [carryOut, apply, atOnce]
    rfl

theorem agrees_of_timed {left right : α} {job : Job α} (alone : e.background = [])
    (performed : e.perform (command (some ⟨tenths, false⟩)) =
      (.ok (.drive job), { e with robot := e.robot.setWheelRps left right }))
    (atOnce : e.perform (command none) = (.ok .nothing, instant))
    (ends : same
      ((job.manoeuvre.after (e.robot.setWheelRps left right) job.ticks).1.finish
        (job.manoeuvre.after (e.robot.setWheelRps left right) job.ticks).2)
      instant.robot) :
    e.Agrees stopAfter command tenths same := by
  let started := { e with robot := e.robot.setWheelRps left right }
  let driven := started.drive stopAfter false job
  refine ⟨driven.1, driven.2.engine, instant, ?_, ?_, fun running unstopped => ?_,
    fun completed => ?_⟩
  · rw [carryOut, apply, performed]
    rfl
  · rw [carryOut, apply, atOnce]
    rfl
  · exact drive_completed running unstopped
  · have robot : driven.2.engine.robot = _ := drive_of_alone alone completed
    rw [robot]
    exact ends

end Engine

/-! ### Ticks add up -/

theorem Heading.turn_turn (heading a b : ℝ) : turn (turn heading a) b = turn heading (a + b) := by
  unfold turn
  rw [Scalar.fold_fold_add _ _ Scalar.tau_pos, add_assoc]

theorem Arc.advance_advance (arc : Arc ℝ) (a b : ℝ) :
    (arc.advance a).advance b = arc.advance (a + b) := by
  unfold advance
  rw [add_assoc]

theorem Vec.add_along_succ (p : Vec ℝ) (heading perTick : ℝ) (n : Nat) :
    p + along heading (perTick * n) + along heading perTick =
      p + along heading (perTick * (n + 1 : Nat)) := by
  ext <;> simp [along] <;> ring

/-- Whether the robot is where a clamp has left it, as it is after every update. -/
def Robot.Placed {α : Type} [Scalar α] (r : Robot α) : Prop :=
  ∃ p, r.motion.position = r.clamp p

namespace Robot

theorem placed_update {α : Type} [Scalar α] (r : Robot α) (change : Kinematics α → Kinematics α) :
    (r.update change).Placed :=
  ⟨_, rfl⟩

variable (r : Robot ℝ)

theorem clamp_clamp (p : Vec ℝ) : r.clamp (r.clamp p) = r.clamp p := r.arena.clamp_idem _ _

theorem Placed.clamp_eq {r : Robot ℝ} (placed : r.Placed) :
    r.clamp r.motion.position = r.motion.position := by
  obtain ⟨p, clamped⟩ := placed
  rw [clamped, clamp_clamp]

theorem spin_spin (a b : ℝ) :
    (r.update (·.spin a)).update (·.spin b) = r.update (·.spin (a + b)) := by
  show { r with motion := { r.motion with
    position := r.clamp (r.clamp r.motion.position)
    heading := Heading.turn (Heading.turn r.motion.heading a) b } } = _
  rw [clamp_clamp, Heading.turn_turn]
  rfl

theorem ahead_ahead (arc : Arc ℝ) (a b : ℝ) :
    (r.update (·.ahead a arc)).update (·.ahead b (arc.advance a)) =
      r.update (·.ahead (a + b) arc) := by
  show { r with motion := { r.motion with
    position := r.clamp ((arc.advance a).advance b).position
    heading := Heading.turn (Heading.turn r.motion.heading a) b } } = _
  rw [Arc.advance_advance, Heading.turn_turn]
  rfl

end Robot

/-- Whether no wall gets in the way of the next tick: a straight one is neither turned round nor
clamped, and a sweep is not thrown back. -/
def Manoeuvre.Unhindered {α : Type} [Scalar α] (r : Robot α) : Manoeuvre α → Prop
  | .straight perTick =>
    let travel := if perTick < 0.0 then r.motion.heading + Scalar.pi else r.motion.heading
    let next := (r.motion.driveStraight r.arena r.wallMargin perTick).position
    { r.motion with heading := travel }.headsIntoWall r.arena r.wallMargin = false ∧
      r.clamp next = next
  | .sweep perTick arc =>
    (r.motion.ahead perTick arc).reflectArc? r.arena r.wallMargin (arc.advance perTick).centre =
      none
  | .spin _ | .pause => True

/-- Whether no wall gets in the way of a job that runs alone. -/
def Job.Unhindered {α : Type} [Scalar α] (t : Job α) (r : Robot α) : Prop :=
  ∀ k < t.ticks, (t.manoeuvre.after r k).1.Unhindered (t.manoeuvre.after r k).2

namespace Manoeuvre

variable {r : Robot ℝ} {perTick : ℝ} {arc : Arc ℝ}

theorem tick_straight (unhindered : (straight perTick).Unhindered r) :
    (straight perTick).tick r = (.straight perTick, { r with motion := { r.motion with
      position := r.motion.position + Vec.along r.motion.heading perTick } }) := by
  obtain ⟨free, unclamped⟩ := unhindered
  have driven : r.motion.driveStraight r.arena r.wallMargin perTick =
      { r.motion with position := r.motion.position + Vec.along r.motion.heading perTick } := by
    unfold Kinematics.driveStraight
    dsimp only
    rw [free, if_neg Bool.false_ne_true]
  rw [driven] at unclamped
  show (straight perTick, r.update fun _ => r.motion.driveStraight r.arena r.wallMargin perTick) = _
  rw [driven, Robot.update, unclamped]

theorem tick_sweep_of_unhindered (unhindered : (sweep perTick arc).Unhindered r) :
    (sweep perTick arc).tick r =
      (.sweep perTick (arc.advance perTick), r.update (·.ahead perTick arc)) := by
  rw [tick, Kinematics.driveArc_of_none unhindered]
  rfl

theorem after_spin (r : Robot ℝ) (perTick : ℝ) (n : Nat) :
    (spin perTick).after r (n + 1) =
      (.spin perTick, r.update (·.spin (perTick * (n + 1 : Nat)))) := by
  induction n with
  | zero =>
    rw [Nat.zero_add, Nat.cast_one, mul_one]
    rfl
  | succ n ih =>
    rw [after, ih, Nat.cast_succ (n + 1), mul_add, mul_one, ← Robot.spin_spin]
    rfl

theorem after_straight (n : Nat)
    (unhindered : ∀ k < n,
      ((straight perTick).after r k).1.Unhindered ((straight perTick).after r k).2) :
    (straight perTick).after r n = (.straight perTick, { r with motion := { r.motion with
      position := r.motion.position + Vec.along r.motion.heading (perTick * n) } }) := by
  induction n with
  | zero =>
    have still : r.motion.position + Vec.along r.motion.heading (perTick * (0 : Nat)) =
        r.motion.position := by
      ext <;> simp [Vec.along]
    rw [still]
    rfl
  | succ n ih =>
    have last := unhindered n (Nat.lt_succ_self n)
    have earlier := ih fun k less => unhindered k (Nat.lt_succ_of_lt less)
    rw [earlier] at last
    rw [after, earlier, tick_straight last, ← Vec.add_along_succ]

theorem after_sweep_of_unhindered (n : Nat)
    (unhindered : ∀ k < n + 1,
      ((sweep perTick arc).after r k).1.Unhindered ((sweep perTick arc).after r k).2) :
    (sweep perTick arc).after r (n + 1) =
      (.sweep perTick (arc.advance (perTick * (n + 1 : Nat))),
        r.update (·.ahead (perTick * (n + 1 : Nat)) arc)) := by
  induction n with
  | zero =>
    rw [Nat.zero_add, Nat.cast_one, mul_one]
    exact tick_sweep_of_unhindered (unhindered 0 Nat.zero_lt_one)
  | succ n ih =>
    have last := unhindered (n + 1) (Nat.lt_succ_self _)
    have earlier := ih fun k less => unhindered k (Nat.lt_succ_of_lt less)
    rw [earlier] at last
    rw [after, earlier, tick_sweep_of_unhindered last, Robot.ahead_ahead, Arc.advance_advance,
      Nat.cast_succ (n + 1), mul_add, mul_one]

end Manoeuvre

/-! ### Out in the open -/

/-- Whether a place is out of reach of all walls. -/
def Rect.Clear (arena : Rect ℝ) (reach : ℝ) (p : Vec ℝ) : Prop :=
  (arena.min.x + reach < p.x ∧ p.x < arena.max.x - reach) ∧
    arena.min.y + reach < p.y ∧ p.y < arena.max.y - reach

theorem Rect.Clear.mono {arena : Rect ℝ} {reach reach' : ℝ} {p : Vec ℝ}
    (clear : arena.Clear reach p) (le : reach' ≤ reach) : arena.Clear reach' p := by
  obtain ⟨⟨west, east⟩, north, south⟩ := clear
  exact ⟨⟨by linarith, by linarith⟩, by linarith, by linarith⟩

theorem Rect.Clear.clamp_eq {arena : Rect ℝ} {margin : ℝ} {p : Vec ℝ}
    (clear : arena.Clear margin p) : arena.clamp margin p = p := by
  obtain ⟨⟨west, east⟩, north, south⟩ := clear
  have between {low q high : ℝ} (above : low < q) (below : q < high) :
      Scalar.lower (Scalar.upper q low) high = q := by
    rw [Scalar.upper, if_pos above, Scalar.lower, if_pos below]
  exact Vec.ext (between west east) (between north south)

theorem Kinematics.bump_of_clear {k : Kinematics ℝ} {arena : Rect ℝ} {margin : ℝ}
    (clear : arena.Clear (margin + k.size / 2.0) k.position) :
    (k.wallBump arena margin).bump = false := by
  obtain ⟨⟨west, east⟩, north, south⟩ := clear
  simp [wallBump, nearWalls, NearWalls.of, not_le.2 west, not_le.2 east, not_le.2 north,
    not_le.2 south]

namespace Manoeuvre

variable {r : Robot ℝ} {perTick : ℝ} {arc : Arc ℝ}

theorem unhindered_straight
    (here : r.arena.Clear (r.wallMargin + r.motion.size / 2.0) r.motion.position)
    (next : r.arena.Clear r.wallMargin (r.motion.position + Vec.along r.motion.heading perTick)) :
    (straight perTick).Unhindered r := by
  have free (heading : ℝ) :
      { r.motion with heading := heading }.headsIntoWall r.arena r.wallMargin = false := by
    rw [Kinematics.headsIntoWall, Kinematics.bump_of_clear (by exact here)]
    rfl
  refine ⟨free _, ?_⟩
  unfold Kinematics.driveStraight
  dsimp only
  rw [free, if_neg Bool.false_ne_true]
  exact next.clamp_eq

theorem unhindered_sweep
    (next : r.arena.Clear (r.wallMargin + r.motion.size / 2.0) (arc.advance perTick).position) :
    (sweep perTick arc).Unhindered r := by
  refine Kinematics.reflectArc?_of_none ?_ _
  rw [Kinematics.rebounding?, Kinematics.bump_of_clear (by exact next)]
  rfl

/-- A drive through open ground is unhindered. -/
theorem unhindered_after_straight {n : Nat} (solid : 0 ≤ r.motion.size / 2.0)
    (ground : ∀ k ≤ n, r.arena.Clear (r.wallMargin + r.motion.size / 2.0)
      (r.motion.position + Vec.along r.motion.heading (perTick * k)))
    {k : Nat} (less : k < n) :
    ((straight perTick).after r k).1.Unhindered ((straight perTick).after r k).2 := by
  induction k using Nat.strong_induction_on with
  | _ k ih =>
    have next := (ground (k + 1) less).mono (le_add_of_nonneg_right solid)
    rw [after_straight k fun j earlier => ih j earlier (earlier.trans less)]
    rw [← Vec.add_along_succ] at next
    exact unhindered_straight (ground k less.le) next

/-- A sweep over open ground is unhindered. -/
theorem unhindered_after_sweep
    (ground : ∀ angle, r.arena.Clear (r.wallMargin + r.motion.size / 2.0)
      (arc.advance angle).position) (k : Nat) :
    ((sweep perTick arc).after r k).1.Unhindered ((sweep perTick arc).after r k).2 := by
  induction k using Nat.strong_induction_on with
  | _ k ih =>
    cases k with
    | zero => exact unhindered_sweep (ground perTick)
    | succ k =>
      rw [after_sweep_of_unhindered k ih]
      refine unhindered_sweep ?_
      rw [Arc.advance_advance]
      exact ground _

end Manoeuvre

/-! ### Commands -/

def Robot.SamePose {α : Type} (r r' : Robot α) : Prop :=
  r.motion.heading = r'.motion.heading ∧ r.motion.position = r'.motion.position

namespace Engine

section Scalars

variable {α : Type} [Scalar α] (e : Engine α) {timing : Option Timing} {tenths : UInt32}

/-- Whether no wall gets in the way of the job that a command leaves to its caller. -/
def Unhindered (command : Command α) : Prop :=
  ∀ job e', e.perform command = (.ok (.drive job), e') → job.Unhindered e'.robot

theorem perform_move_timed (lasts : duration? timing = some tenths) (distance : α) :
    let ticks := e.settings.ticksForTenths tenths
    ∃ left right, e.perform (.move distance timing) =
      (.ok (schedule timing ⟨"MOVE", ticks, .straight (distance / Scalar.ofNat ticks)⟩),
        { e with robot := e.robot.setWheelRps left right }) := by
  simp only [perform, move, lasts]
  exact ⟨_, _, rfl⟩

theorem perform_move_at_once (instant : duration? timing = none) (distance : α) :
    e.perform (.move distance timing) = e.perform (.move distance none) := by
  simp only [perform, move, instant]
  rfl

theorem perform_turn_timed (lasts : duration? timing = some tenths) (degrees : α) :
    let ticks := e.settings.ticksForTenths tenths
    ∃ left right, e.perform (.turn degrees timing) =
      (.ok (schedule timing ⟨"TURN", ticks, .spin (Scalar.radians degrees / Scalar.ofNat ticks)⟩),
        { e with robot := e.robot.setWheelRps left right }) := by
  simp only [perform, turn, lasts]
  exact ⟨_, _, rfl⟩

theorem perform_turn_at_once (instant : duration? timing = none) (degrees : α) :
    e.perform (.turn degrees timing) = e.perform (.turn degrees none) := by
  simp only [perform, turn, instant]
  rfl

end Scalars

/-- A job cut into its ticks is whole again after them. -/
theorem exists_ticks (s : Settings ℝ) (tenths : UInt32) (whole : ℝ) :
    ∃ n, s.ticksForTenths tenths = n + 1 ∧
      whole / Scalar.ofNat (s.ticksForTenths tenths) * (n + 1 : Nat) = whole := by
  obtain ⟨n, ticks⟩ : ∃ n, s.ticksForTenths tenths = n + 1 :=
    Nat.exists_eq_add_of_le' (Nat.le_max_left 1 _)
  refine ⟨n, ticks, ?_⟩
  rw [ticks]
  show whole / ((n + 1 : Nat) : ℝ) * (n + 1 : Nat) = whole
  field_simp

variable {e : Engine ℝ} {stopAfter : Nat → Bool} {tenths : UInt32}

theorem turn_agrees (alone : e.background = []) (tenths : UInt32) (degrees : ℝ) :
    e.Agrees stopAfter (.turn degrees) tenths fun timed instant =>
      timed.SamePose instant ∧ timed.color = instant.color ∧ timed.mood = instant.mood := by
  cases lasts : duration? (some ⟨tenths, false⟩) with
  | none =>
    exact agrees_of_instant (e.perform_turn_at_once lasts degrees) rfl ⟨⟨rfl, rfl⟩, rfl, rfl⟩
  | some tenths' =>
    obtain ⟨left, right, performed⟩ := e.perform_turn_timed lasts degrees
    obtain ⟨n, ticks, whole⟩ := exists_ticks e.settings tenths' (Scalar.radians degrees)
    refine agrees_of_timed alone performed rfl ?_
    dsimp only
    generalize Scalar.radians degrees / Scalar.ofNat _ = perTick at whole
    rw [ticks, Manoeuvre.after_spin, whole]
    refine ⟨⟨rfl, ?_⟩, rfl, rfl⟩
    -- the start, the ticks and the finish each clamp the robot to where it is
    show e.robot.clamp (e.robot.clamp (e.robot.clamp e.robot.motion.position)) =
      e.robot.clamp e.robot.motion.position
    rw [Robot.clamp_clamp, Robot.clamp_clamp]

theorem move_agrees (alone : e.background = []) (placed : e.robot.Placed) {distance : ℝ}
    (unhindered : e.Unhindered (.move distance (some ⟨tenths, false⟩))) :
    e.Agrees stopAfter (.move distance) tenths Robot.SamePose := by
  cases lasts : duration? (some ⟨tenths, false⟩) with
  | none => exact agrees_of_instant (e.perform_move_at_once lasts distance) rfl ⟨rfl, rfl⟩
  | some tenths' =>
    obtain ⟨left, right, performed⟩ := e.perform_move_timed lasts distance
    obtain ⟨n, ticks, whole⟩ := exists_ticks e.settings tenths' distance
    have free := unhindered _ _ performed
    have start : (e.robot.setWheelRps left right).motion.position = e.robot.motion.position :=
      placed.clamp_eq
    refine agrees_of_timed alone performed rfl ?_
    unfold Job.Unhindered at free
    dsimp only at free ⊢
    generalize distance / Scalar.ofNat _ = perTick at whole free
    rw [ticks] at free ⊢
    rw [Manoeuvre.after_straight _ free, whole, start]
    exact ⟨rfl, rfl⟩

theorem arc_agrees (alone : e.background = []) {radius degrees : ℝ}
    (unhindered : e.Unhindered (.arc radius degrees (some ⟨tenths, false⟩))) :
    e.Agrees stopAfter (.arc radius degrees) tenths Robot.SamePose := by
  cases turns : degrees == 0.0 with
  | true =>
    have nothing (timing : Option Timing) :
        e.perform (.arc radius degrees timing) = (.ok .nothing, e) := by
      rw [perform, if_pos turns]
    exact agrees_of_instant (nothing _) (nothing none) ⟨rfl, rfl⟩
  | false =>
    obtain ⟨arc, started, -⟩ :=
      Arc.exists_start e.robot.motion.position e.robot.motion.heading radius
    have atOnce := perform_arc_at_once turns started (show duration? none = none from rfl)
    cases lasts : duration? (some ⟨tenths, false⟩) with
    | none =>
      exact agrees_of_instant (perform_arc_at_once turns started lasts) atOnce ⟨rfl, rfl⟩
    | some tenths' =>
      obtain ⟨left, right, performed⟩ := perform_arc_timed turns started lasts
      obtain ⟨n, ticks, whole⟩ :=
        exists_ticks e.settings tenths' (Scalar.radians (Scalar.abs degrees) * arc.sense)
      have free := unhindered _ _ performed
      refine agrees_of_timed alone performed atOnce ?_
      unfold Job.Unhindered at free
      dsimp only at free ⊢
      generalize Scalar.radians (Scalar.abs degrees) * arc.sense / Scalar.ofNat _ = perTick
        at whole free
      rw [ticks] at free ⊢
      rw [Manoeuvre.after_sweep_of_unhindered n free, whole]
      exact ⟨rfl, Robot.clamp_clamp _ _⟩

end Engine

/-- Given time, a turn ends as it does at once, and so do a straight drive and an arc that no wall
gets in the way of, unless they are cancelled. No time is the same as none given, in the background
or not and whatever numbers motion is computed with. -/
theorem timed_motion_agrees (e : Engine ℝ) (alone : e.background = []) (stopAfter : Nat → Bool)
    (tenths : UInt32) :
    (∀ degrees, e.Agrees stopAfter (.turn degrees) tenths fun timed instant =>
      timed.SamePose instant ∧ timed.color = instant.color ∧ timed.mood = instant.mood) ∧
    (∀ distance, e.robot.Placed → e.Unhindered (.move distance (some ⟨tenths, false⟩)) →
      e.Agrees stopAfter (.move distance) tenths Robot.SamePose) ∧
    (∀ radius degrees, e.Unhindered (.arc radius degrees (some ⟨tenths, false⟩)) →
      e.Agrees stopAfter (.arc radius degrees) tenths Robot.SamePose) ∧
    ∀ (α : Type) [Scalar α] (e : Engine α) (background : Bool),
      (∀ distance, e.perform (.move distance (some ⟨0, background⟩)) =
        e.perform (.move distance none)) ∧
      (∀ degrees, e.perform (.turn degrees (some ⟨0, background⟩)) =
        e.perform (.turn degrees none)) ∧
      ∀ radius degrees, e.perform (.arc radius degrees (some ⟨0, background⟩)) =
        e.perform (.arc radius degrees none) := by
  refine ⟨Engine.turn_agrees alone tenths, fun distance placed => Engine.move_agrees alone placed,
    fun radius degrees => Engine.arc_agrees alone, fun α _ e background => ?_⟩
  exact ⟨e.perform_move_at_once rfl, e.perform_turn_at_once rfl, fun _ _ => rfl⟩

/-- A robot in the middle of a large arena. -/
noncomputable def Engine.midfield : Engine ℝ :=
  .new (.new ⟨"Rover", .red, ⟨200.0, 200.0⟩, 0.0, 15.0⟩ ⟨⟨0.0, 0.0⟩, ⟨400.0, 400.0⟩⟩ .default)
    .default .standard

namespace Engine

theorem midfield_placed : midfield.robot.Placed := Robot.placed_update _ _

theorem midfield_position : midfield.robot.motion.position = ⟨200, 200⟩ := by
  have clear : (⟨⟨0.0, 0.0⟩, ⟨400.0, 400.0⟩⟩ : Rect ℝ).Clear 10.0 ⟨200.0, 200.0⟩ := by
    norm_num [Rect.Clear]
  show (⟨⟨0.0, 0.0⟩, ⟨400.0, 400.0⟩⟩ : Rect ℝ).clamp 10.0 ⟨200.0, 200.0⟩ = _
  rw [clear.clamp_eq]
  norm_num

theorem midfield_clear {p : Vec ℝ} (across : |p.x - 200| ≤ 100) (down : |p.y - 200| ≤ 100) :
    midfield.robot.arena.Clear (midfield.robot.wallMargin + midfield.robot.motion.size / 2.0)
      p := by
  show (⟨⟨0.0, 0.0⟩, ⟨400.0, 400.0⟩⟩ : Rect ℝ).Clear (10.0 + 15.0 / 2.0) p
  rw [abs_le] at across down
  norm_num [Rect.Clear]
  exact ⟨⟨by linarith, by linarith⟩, by linarith, by linarith⟩

theorem midfield_move : midfield.Unhindered (.move 100 (some ⟨10, false⟩)) := by
  have lasts : duration? (some ⟨10, false⟩) = some 10 := rfl
  obtain ⟨left, right, performed⟩ := midfield.perform_move_timed lasts 100
  intro job e' same
  cases performed.symm.trans same
  intro k less
  have start : (midfield.robot.setWheelRps left right).motion.position = ⟨200, 200⟩ :=
    midfield_placed.clamp_eq.trans midfield_position
  have solid : (0 : ℝ) ≤ 15.0 / 2.0 := by norm_num
  refine Manoeuvre.unhindered_after_straight solid (fun k le => ?_) less
  rw [start]
  generalize midfield.settings.ticksForTenths 10 = ticks at le
  have nonneg : (0 : ℝ) ≤ 100 / ticks * k := by positivity
  have part : (100 : ℝ) / ticks * k ≤ 100 := by
    rw [div_mul_eq_mul_div]
    exact div_le_of_le_mul₀ (by positivity) (by norm_num) (by gcongr)
  have east : Real.cos 0.0 = 1 := by norm_num
  have south : Real.sin 0.0 = 0 := by norm_num
  apply midfield_clear
  · show |200 + Real.cos 0.0 * (100 / (ticks : ℝ) * k) - 200| ≤ 100
    rwa [east, one_mul, add_sub_cancel_left, abs_of_nonneg nonneg]
  · show |200 + Real.sin 0.0 * (100 / (ticks : ℝ) * k) - 200| ≤ 100
    rw [south]
    norm_num

theorem midfield_arc : midfield.Unhindered (.arc 50 90 (some ⟨10, false⟩)) := by
  obtain ⟨arc, started, radius, centre, -⟩ :=
    Arc.exists_start midfield.robot.motion.position midfield.robot.motion.heading 50
  have turns : ((90 : ℝ) == 0.0) = false := decide_eq_false (by norm_num)
  have lasts : duration? (some ⟨10, false⟩) = some 10 := rfl
  obtain ⟨left, right, performed⟩ := perform_arc_timed turns started lasts
  intro job e' same
  cases performed.symm.trans same
  intro k less
  refine Manoeuvre.unhindered_after_sweep (fun angle => ?_) k
  have east : arc.centre = ⟨200, 250⟩ := by
    have heading : midfield.robot.motion.heading = 0 := by
      show (0.0 : ℝ) = 0
      norm_num
    rw [centre, midfield_position, heading]
    ext <;> norm_num
  have cosine := abs_le.1 (Real.abs_cos_le_one (arc.angle + angle))
  have sine := abs_le.1 (Real.abs_sin_le_one (arc.angle + angle))
  apply midfield_clear
  · show |arc.centre.x + Real.cos (arc.angle + angle) * |arc.radius| - 200| ≤ 100
    rw [east, radius, abs_of_pos (by norm_num : (0 : ℝ) < 50), abs_le]
    exact ⟨by linarith, by linarith⟩
  · show |arc.centre.y + Real.sin (arc.angle + angle) * |arc.radius| - 200| ≤ 100
    rw [east, radius, abs_of_pos (by norm_num : (0 : ℝ) < 50), abs_le]
    exact ⟨by linarith, by linarith⟩

end Engine

open Engine in
theorem timed_motion_agrees_midfield :
    midfield.background = [] ∧ midfield.robot.Placed ∧
      (midfield.Agrees (fun _ => false) (.turn 90) 10 fun timed instant =>
        timed.SamePose instant ∧ timed.color = instant.color ∧ timed.mood = instant.mood) ∧
      midfield.Agrees (fun _ => false) (.move 100) 10 Robot.SamePose ∧
      midfield.Agrees (fun _ => false) (.arc 50 90) 10 Robot.SamePose := by
  obtain ⟨turn, move, arc, -⟩ := timed_motion_agrees midfield rfl (fun _ => false) 10
  exact ⟨rfl, midfield_placed, turn 90, move 100 midfield_placed midfield_move,
    arc 50 90 midfield_arc⟩

end RobotScript
