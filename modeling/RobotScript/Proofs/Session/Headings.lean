import RobotScript.Proofs.Command.Parsing
import RobotScript.Proofs.Motion.Headings
import RobotScript.Proofs.Number.Numerals
import RobotScript.Proofs.Session.Walk
import RobotScript.Proofs.Swarm.Registry
import RobotScript.Session.Basic

/-!
# Setting and sensing headings

Three verbs turn a robot to a heading and two sensors read it. All of them count degrees, but from
different directions and in different senses. Whole degrees that one of the verbs sets are what the
sensors read, by their own counts.
-/

namespace RobotScript

open Binary (Whole)
open Text (sameWord words)

/-- A verb, and what the sensors for the heading read after it. -/
structure HeadingRow where
  name : String
  angle : Int
  compass : Int
deriving DecidableEq

/-- What the verbs for the heading come to when given `d` degrees. -/
def headingRows (d : Int) : List HeadingRow :=
  [⟨"ANGLE", d % 360, (90 - d) % 360⟩, ⟨"COMPASS", (90 - d) % 360, d % 360⟩,
    ⟨"HEADING", (90 - d) % 360, d % 360⟩, ⟨"DIR", -d % 360, (d + 90) % 360⟩]

/-- A text is carried out at once as a command, after which the sensors read as the row says. -/
def Session.ReadsBack (s : Session) (text : String) (row : HeadingRow) : Prop :=
  ∃ engine, s.engine.execute text = (.ok .finished, engine) ∧ ∀ random,
    ({ s with engine }.sense .angle random).1 = .int (Int64.ofInt row.angle) ∧
    ({ s with engine }.sense .compass random).1 = .int (Int64.ofInt row.compass)

/-! ### Commands -/

theorem Robot.senses_of_setHeading (r : Robot Float32) {y : Float32} {d : Int} (whole : Whole y d) :
    (r.setHeading (Heading.ofDegrees y)).motion.angle = -d % 360 ∧
      (r.setHeading (Heading.ofDegrees y)).motion.compass = (d + 90) % 360 := by
  have folded := whole.fold32 whole_360 (by decide) (by decide)
  have low := Int.emod_nonneg d (show (360 : Int) ≠ 0 by decide)
  have high := Int.emod_lt_of_pos d (show (0 : Int) < 360 by decide)
  obtain ⟨angle, compass⟩ := @Kinematics.senses_of_whole
    (r.setHeading (Heading.ofDegrees y)).motion _ _ folded low high rfl
  rw [angle, compass]
  omega

theorem VerbTable.find?_congr (table : VerbTable) {a b : String} (same : sameWord a b = true) :
    table.find? a = table.find? b := by
  unfold VerbTable.find?
  simp only [sameWord_congr same]

theorem VerbTable.find?_headings :
    standard.find? "ANGLE" = some .angle ∧ standard.find? "COMPASS" = some .compass ∧
      standard.find? "HEADING" = some .compass ∧ standard.find? "DIR" = some .dir := by
  decide +kernel

/-- A command that takes no time is finished with when it has been carried out. -/
theorem Engine.execute_of_words {e e' : Engine Float32} {text name word : String} {verb : Verb}
    {command : Command Float32} (split : words text.toList = [name, word])
    (found : e.verbs.find? name = some verb)
    (read : Command.ofArguments verb [word] = .ok command)
    (done : e.perform command = (.ok .nothing, e')) :
    e.execute text = (.ok .finished, e') := by
  have spelled : Command.ofText e.verbs text = .ok command := by
    unfold Command.ofText
    rw [split]
    dsimp only
    rw [found]
    exact read
  unfold Engine.execute Engine.order
  rw [spelled]
  dsimp only
  rw [done]
  rfl

theorem words_pair {name word : String} (solid : ∀ c ∈ name.toList, Text.isBlank c = false)
    (solid' : ∀ c ∈ word.toList, Text.isBlank c = false) (filled : name.toList ≠ [])
    (filled' : word.toList ≠ []) : words (name ++ " " ++ word).toList = [name, word] := by
  have second : words (' ' :: word.toList) = [word] := by
    have last : ∀ c ∈ ([] : List Char).head?, Text.isBlank c = true := by simp
    have alone := Text.filter_splitOnP_append solid' last filled'
    rw [List.append_nil] at alone
    rw [Text.words_eq_splitOnP, List.splitOnP_cons_eq_if_modifyHead, if_pos (by decide),
      List.filter_cons_of_neg (by simp), alone]
    simp
  have blank : ∀ c ∈ (' ' :: word.toList).head?, Text.isBlank c = true := by
    rintro c ⟨⟩
    rfl
  rw [String.toList_append, String.toList_append, List.append_assoc, Text.words_eq_splitOnP]
  show ((name.toList ++ ' ' :: word.toList).splitOnP _ |>.filter _).map _ = _
  rw [Text.filter_splitOnP_append solid blank filled, List.map_cons, ← Text.words_eq_splitOnP,
    second, String.ofList_toList]

section Row

variable {s : Session} {row : HeadingRow} {text name word : String} {x : Float32} {d : Int}

theorem Session.readsBack_of_turn {verb : Verb} {command : Command Float32} {y : Float32} {h : Int}
    (split : words text.toList = [name, word]) (found : s.engine.verbs.find? name = some verb)
    (read : Command.ofArguments verb [word] = .ok command)
    (done : s.engine.perform command =
      (s.engine.withRobot (·.setHeading (Heading.ofDegrees y))).map .ok id)
    (whole : Whole y h) (angle : row.angle = -h % 360) (compass : row.compass = (h + 90) % 360) :
    s.ReadsBack text row := by
  refine ⟨_, Engine.execute_of_words split found read done, fun random => ?_⟩
  rw [angle, compass]
  obtain ⟨left, right⟩ := s.engine.robot.senses_of_setHeading whole
  exact ⟨congrArg (fun a => Value.int (Int64.ofInt a)) left,
    congrArg (fun a => Value.int (Int64.ofInt a)) right⟩

/-- The verbs differ in the direction they count from and in the sense they count in. -/
theorem Session.readsBack_of_words (standard : s.engine.verbs = VerbTable.standard)
    (small : d.natAbs ≤ 2 ^ 24 - 360) (listed : row ∈ headingRows d)
    (split : words text.toList = [name, word]) (called : sameWord row.name name = true)
    (read : Decimal.read32? word = some x) (whole : Whole x d) : s.ReadsBack text row := by
  have number : Command.number word = .ok x := Slot.number_eq_ok_iff.2 ⟨read, whole.1⟩
  have bound : s.engine.verbs.find? name = VerbTable.standard.find? row.name := by
    rw [standard, VerbTable.find?_congr _ called]
  have argument (make : Float32 → Command Float32) :
      (Command.number word).map make = .ok (make x) := by
    rw [number]
    rfl
  have opposite : Whole (360.0 - x) (360 - d) := whole_360.sub whole (by omega)
  have quarters : Whole (x + 270.0) (d + 270) := whole.add whole_270 (by omega)
  obtain ⟨angle, compass, heading, dir⟩ := VerbTable.find?_headings
  simp only [headingRows, List.mem_cons, List.not_mem_nil, or_false] at listed
  rcases listed with rfl | rfl | rfl | rfl
  · exact readsBack_of_turn split (bound.trans angle) (argument .angle) rfl opposite
      (by dsimp only; omega) (by dsimp only; omega)
  · exact readsBack_of_turn split (bound.trans compass) (argument .compass) rfl quarters
      (by dsimp only; omega) (by dsimp only; omega)
  · exact readsBack_of_turn split (bound.trans heading) (argument .compass) rfl quarters
      (by dsimp only; omega) (by dsimp only; omega)
  · exact readsBack_of_turn split (bound.trans dir) (argument .dir) rfl whole rfl rfl

end Row

/-- Degrees that are set by `ANGLE`, `COMPASS`, `HEADING` or `DIR` and sensed by `@angle` and
`@compass`. The numeral may be written in any way that single precision reads as the whole number,
the decimal digits of it among others. -/
theorem headings_read_back (s : Session) (standard : s.engine.verbs = VerbTable.standard) (d : Int)
    (small : |d| ≤ 2 ^ 24 - 360) : ∀ row ∈ headingRows d,
      s.ReadsBack (row.name ++ " " ++ toString d) row ∧
      ∀ (text name word : String) (x : Float32), words text.toList = [name, word] →
        sameWord row.name name = true → Decimal.read32? word = some x → Whole x d →
        s.ReadsBack text row := by
  intro row listed
  have small : d.natAbs ≤ 2 ^ 24 - 360 := by
    rw [Int.abs_eq_natAbs] at small
    omega
  refine ⟨?_, fun text name word x split called read whole =>
    Session.readsBack_of_words standard small listed split called read whole⟩
  obtain ⟨x, read, whole⟩ := Decimal.exists_read32?_toString (small.trans (by decide))
  obtain ⟨filled, solid⟩ := Decimal.toString_solid d
  have named : row.name.toList ≠ [] ∧ row.name.toList.all (!Text.isBlank ·) = true := by
    simp only [headingRows, List.mem_cons, List.not_mem_nil, or_false] at listed
    rcases listed with rfl | rfl | rfl | rfl <;> dsimp only <;> decide
  exact Session.readsBack_of_words standard small listed
    (words_pair (by simpa using named.2) solid named.1 filled) BEq.rfl read whole

theorem headings_read_back_idle :
    Run.idle.session.ReadsBack "ANGLE -15000000" ⟨"ANGLE", 120, 330⟩ ∧
      Run.idle.session.ReadsBack "heading -1.5e7" ⟨"HEADING", 330, 120⟩ := by
  have rows := headings_read_back Run.idle.session rfl (-15000000) (by decide)
  have read : Decimal.read32? "-1.5e7" = some (-Float32.ofScientific 15 false 6) := by
    decide +kernel
  have million : Whole (Float32.ofScientific 15 false 6) 15000000 := by
    obtain ⟨finite, exact⟩ :=
      @value_of_view (Float32.ofScientific 15 false 6) 15000000 0 (by decide) rfl
    exact ⟨finite, exact.trans (by norm_num)⟩
  refine ⟨(rows ⟨"ANGLE", 120, 330⟩ (by decide)).1, ?_⟩
  exact (rows ⟨"HEADING", 330, 120⟩ (by decide)).2 "heading -1.5e7" "heading" "-1.5e7" _
    (by decide +kernel) (by decide +kernel) read million.neg

end RobotScript
