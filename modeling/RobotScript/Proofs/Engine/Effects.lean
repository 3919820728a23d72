import RobotScript.Engine.Basic

/-!
# What commands and jobs do to the robot

A tick moves the robot and leaves its wheels as they are; so does a command that is carried out at
once. The wheels change when a timed motion starts, which is when a command leaves one to be run,
and when it ends. A command that fails does nothing at all.
-/

namespace RobotScript

variable {α : Type}

def Kinematics.wheels (k : Kinematics α) : α × α := (k.leftSpeed, k.rightSpeed)

/-- Whether the wheels turn while the manoeuvre is carried out. -/
def Manoeuvre.isMotion : Manoeuvre α → Bool
  | .straight _ | .spin _ | .sweep _ _ => true
  | .pause => false

namespace Errand

/-- The job that a command leaves, whoever is to run it. -/
def job? : Errand α → Option (Job α)
  | .nothing => none
  | .drive job | .launch job => some job

/-- Whether a timed motion is about to be run. -/
def isMotion (errand : Errand α) : Bool := errand.job?.any (·.manoeuvre.isMotion)

end Errand

variable [Scalar α]

/-- Changes of a robot that leave its wheels as they are. -/
inductive Robot.Coasts (r : Robot α) : Robot α → Prop
  | rest : Coasts r r
  | move (position : Vec α) (heading : α) :
    Coasts r (r.update fun k => { k with position := position, heading := heading })
  | look (color : Color) (mood : Mood) (status : Status) :
    Coasts r { r with color := color, mood := mood, status := status }

theorem Robot.Coasts.wheels_eq {r r' : Robot α} (coasts : r.Coasts r') :
    r'.motion.wheels = r.motion.wheels := by
  cases coasts with
  | rest | move | look => rfl

/-! ### Jobs -/

namespace Manoeuvre

theorem tick_coasts (m : Manoeuvre α) (r : Robot α) : r.Coasts (m.tick r).2 := by
  cases m with
  | straight perTick => exact .move _ _
  | spin perTick => exact .move _ _
  | sweep perTick arc =>
    simp only [tick, Kinematics.driveArc]
    split <;> exact .move _ _
  | pause => exact .rest

theorem tick_isMotion (m : Manoeuvre α) (r : Robot α) : (m.tick r).1.isMotion = m.isMotion := by
  cases m <;> rfl

theorem finish_of_isMotion {m : Manoeuvre α} (motion : m.isMotion = true) (r : Robot α) :
    m.finish r = r.stopWheels := by
  cases m with
  | straight | spin | sweep => rfl
  | pause => cases motion

theorem finish_of_not_isMotion {m : Manoeuvre α} (pause : m.isMotion = false) (r : Robot α) :
    m.finish r = r := by
  cases m with
  | straight | spin | sweep => cases pause
  | pause => rfl

end Manoeuvre

/-! ### Commands -/

namespace Engine

/-- What a command does to the robot `r`, by the errand it leaves. -/
inductive Affects (r : Robot α) : Errand α → Robot α → Prop
  | coast {errand r'} (idle : errand.isMotion = false) (coasts : r.Coasts r') : Affects r errand r'
  | start {errand} (motion : errand.isMotion = true) (left right : α) :
    Affects r errand (r.setWheelRps left right)

theorem Affects.wheels_eq {r r' : Robot α} {errand : Errand α} (affects : Affects r errand r')
    (idle : errand.isMotion = false) : r'.motion.wheels = r.motion.wheels := by
  cases affects with
  | coast _ coasts => exact coasts.wheels_eq
  | start motion => rw [motion] at idle; cases idle

theorem Affects.schedule (r : Robot α) (timing : Option Timing) {job : Job α}
    (motion : job.manoeuvre.isMotion = true) (left right : α) :
    Affects r (schedule timing job) (r.setWheelRps left right) := by
  refine .start ?_ left right
  unfold Engine.schedule
  split <;> exact motion

section Commands

variable (e : Engine α)

theorem move_affects (distance : α) (timing : Option Timing) :
    Affects e.robot (e.move distance timing).1 (e.move distance timing).2.robot := by
  unfold move
  split
  · exact .coast rfl (.move _ _)
  · exact .schedule _ _ rfl _ _

theorem turn_affects (degrees : α) (timing : Option Timing) :
    Affects e.robot (e.turn degrees timing).1 (e.turn degrees timing).2.robot := by
  unfold turn
  dsimp only
  split
  · exact .coast rfl (.move _ _)
  · exact .schedule _ _ rfl _ _

theorem sound_affects (frequency : α) (millis : Option α) (wait : Bool) :
    Affects e.robot (e.sound frequency millis wait).1 (e.sound frequency millis wait).2.robot := by
  unfold sound
  split
  · exact .coast rfl .rest
  · dsimp only
    split
    · exact .coast rfl .rest
    · exact .coast (by cases wait <;> rfl) .rest

end Commands

section Answers

variable {e e' : Engine α} {radius degrees : α} {timing : Option Timing} {command : Command α}
  {answer : Except HeadingError (Errand α)}

/-- An arc is driven, or fails where it starts, before anything has been written. -/
theorem arc_cases (driven : e.arc radius degrees timing = (answer, e')) :
    (∃ errand, answer = .ok errand ∧ Affects e.robot errand e'.robot) ∨
      ∃ reason, answer = .error reason ∧ e' = e ∧
        Arc.start e.robot.motion.position e.robot.motion.heading radius = .error reason := by
  unfold arc at driven
  dsimp only at driven
  cases started : Arc.start e.robot.motion.position e.robot.motion.heading radius with
  | error reason =>
    rw [started] at driven
    cases driven
    exact .inr ⟨reason, rfl, rfl, rfl⟩
  | ok path =>
    rw [started] at driven
    dsimp only at driven
    split at driven
    · cases driven
      exact .inl ⟨_, rfl, .coast rfl (.move _ _)⟩
    · cases driven
      refine .inl ⟨_, rfl, ?_⟩
      -- the side of the outer wheel does not matter
      dsimp only
      split <;> exact .schedule _ _ rfl _ _

/-- A command is carried out, or it is an arc that fails and the engine is as it was. -/
theorem perform_cases (performed : e.perform command = (answer, e')) :
    (∃ errand, answer = .ok errand ∧ Affects e.robot errand e'.robot) ∨
      ∃ radius degrees timing reason, command = .arc radius degrees timing ∧
        answer = .error reason ∧ e' = e ∧
        Arc.start e.robot.motion.position e.robot.motion.heading radius = .error reason := by
  cases command with
  | move distance timing =>
    cases performed
    exact .inl ⟨_, rfl, e.move_affects distance timing⟩
  | turn degrees timing =>
    cases performed
    exact .inl ⟨_, rfl, e.turn_affects degrees timing⟩
  | arc radius degrees timing =>
    rw [perform] at performed
    split at performed
    · cases performed
      exact .inl ⟨_, rfl, .coast rfl .rest⟩
    · obtain driven | ⟨reason, failed⟩ := arc_cases performed
      · exact .inl driven
      · exact .inr ⟨radius, degrees, timing, reason, rfl, failed⟩
  | sound frequency millis wait =>
    cases performed
    exact .inl ⟨_, rfl, e.sound_affects frequency millis wait⟩
  | delay tenths =>
    cases performed
    exact .inl ⟨_, rfl, .coast (by split <;> rfl) .rest⟩
  | pos | dir | angle | compass =>
    cases performed
    exact .inl ⟨_, rfl, .coast rfl (.move _ _)⟩
  | paint color =>
    cases performed
    exact .inl ⟨_, rfl, .coast rfl (.look color e.robot.mood e.robot.status)⟩
  | feel mood =>
    cases performed
    exact .inl ⟨_, rfl, .coast rfl (.look e.robot.color mood e.robot.status)⟩

end Answers

/-- A text is carried out as a command. If it is not, it could not be read or is an arc that cannot
start, and the engine is as it was. -/
theorem order_cases {e e' : Engine Float32} {text : String}
    {answer : Except CommandError (Errand Float32)} (ordered : e.order text = (answer, e')) :
    (∃ errand, answer = .ok errand ∧ Affects e.robot errand e'.robot) ∨
      ∃ fault, answer = .error fault ∧ e' = e ∧
        (Command.ofText e.verbs text = .error fault ∨ ∃ radius degrees timing reason,
          Command.ofText e.verbs text = .ok (.arc radius degrees timing) ∧
          Arc.start e.robot.motion.position e.robot.motion.heading radius = .error reason ∧
          fault = .heading reason) := by
  unfold order at ordered
  cases read : Command.ofText e.verbs text with
  | error fault =>
    rw [read] at ordered
    cases ordered
    exact .inr ⟨fault, rfl, rfl, .inl rfl⟩
  | ok command =>
    rw [read] at ordered
    dsimp only at ordered
    rcases performed : e.perform command with ⟨done, reached⟩
    rw [performed] at ordered
    cases ordered
    obtain ⟨errand, rfl, affects⟩ | ⟨radius, degrees, timing, reason, rfl, rfl, unchanged, started⟩ :=
      perform_cases performed
    · exact .inl ⟨errand, rfl, affects⟩
    · exact .inr ⟨_, rfl, unchanged, .inr ⟨radius, degrees, timing, reason, rfl, started, rfl⟩⟩

end Engine

end RobotScript
