import RobotScript.Command.Basic
import RobotScript.Number.Decimal

/-!
# Reading commands

A command is a verb and its arguments, words apart. The words `INTIME`, `BACKGROUND`, `ANGLE` and
`WAIT` may be written in either case.
-/

namespace RobotScript.Command

open Text (sameWord)

/-- A finite number. -/
def number (word : String) : Except CommandError Float32 :=
  match Decimal.read32? word with
  | some x => if x.isFinite then .ok x else .error (.badNumber word)
  | none => .error (.badNumber word)

/-- A number of tenths of a second, rounded to a whole one. -/
def tenths (word : String) : Except CommandError UInt32 :=
  (number word).bind fun x =>
    if x < 0.0 || x > 4294967296.0 then .error (.badNumber word)
    else .ok (Binary.nearestUInt32 (Binary.view32 x))

/-- The words after the arguments of a motion: nothing, or its time. -/
def timing (verb : Verb) : List String → Except CommandError (Option Timing)
  | [] => .ok none
  | [intime, t] =>
    if sameWord intime "INTIME" then (tenths t).map (some ⟨·, false⟩) else .error (.usage verb)
  | [intime, t, background] =>
    if sameWord intime "INTIME" && sameWord background "BACKGROUND" then
      (tenths t).map (some ⟨·, true⟩)
    else .error (.usage verb)
  | _ => .error (.usage verb)

/-- The command of `verb` with the given arguments. -/
def ofArguments (verb : Verb) (args : List String) : Except CommandError (Command Float32) :=
  match verb, args with
  | .move, distance :: rest => do
    let distance ← number distance
    return .move distance (← timing verb rest)
  | .turn, degrees :: rest => do
    let degrees ← number degrees
    return .turn degrees (← timing verb rest)
  | .arc, radius :: word :: degrees :: rest => do
    if sameWord word "ANGLE" then
      let radius ← number radius
      let degrees ← number degrees
      return .arc radius degrees (← timing verb rest)
    else .error (.usage verb)
  | .sound, [frequency] => do
    return .sound (← number frequency) none false
  | .sound, [frequency, millis] => do
    let frequency ← number frequency
    return .sound frequency (some (← number millis)) false
  | .sound, [frequency, millis, wait] => do
    if sameWord wait "WAIT" then
      let frequency ← number frequency
      return .sound frequency (some (← number millis)) true
    else .error (.usage verb)
  | .delay, [t] => (tenths t).map .delay
  | .pos, [x, y] => do
    let x ← number x
    return .pos x (← number y)
  | .dir, [degrees] => (number degrees).map .dir
  | .angle, [degrees] => (number degrees).map .angle
  | .compass, [degrees] => (number degrees).map .compass
  | .paint color, [] => .ok (.paint color)
  | .feel mood, [] => .ok (.feel mood)
  | _, _ => .error (.usage verb)

/-- The command that `text` spells with the verbs of `table`. -/
def ofText (table : VerbTable) (text : String) : Except CommandError (Command Float32) :=
  match Text.words text.toList with
  | [] => .error .empty
  | name :: args =>
    match table.find? name with
    | some verb => ofArguments verb args
    | none => .error (.unknownVerb name)

end RobotScript.Command
