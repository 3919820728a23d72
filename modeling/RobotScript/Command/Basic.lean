import RobotScript.Motion.Arc
import RobotScript.Robot.Appearance

/-!
# Commands

What a script can tell its robot to do, and the verbs it does so with.
-/

namespace RobotScript

/-- `INTIME tenths`, in the foreground or the background. -/
structure Timing where
  tenths : UInt32
  background : Bool
deriving DecidableEq, Repr

inductive Command (α : Type) where
  | move (distance : α) (timing : Option Timing)
  | turn (degrees : α) (timing : Option Timing)
  | arc (radius degrees : α) (timing : Option Timing)
  | sound (frequency : α) (millis : Option α) (wait : Bool)
  | delay (tenths : UInt32)
  | pos (x y : α)
  | dir (degrees : α)
  | angle (degrees : α)
  | compass (degrees : α)
  | paint (color : Color)
  | feel (mood : Mood)

inductive Verb where
  | move | turn | arc | sound | delay | pos | dir | angle | compass
  | paint (color : Color)
  | feel (mood : Mood)
deriving DecidableEq, Repr

def Verb.usage : Verb → String
  | .move => "MOVE <distance> [INTIME <tenths> [BACKGROUND]]"
  | .turn => "TURN <degrees> [INTIME <tenths> [BACKGROUND]]"
  | .arc => "ARC <radius> ANGLE <degrees> [INTIME <tenths> [BACKGROUND]]"
  | .sound => "SOUND <frequency> [<millis> [WAIT]]"
  | .delay => "DELAY <tenths>"
  | .pos => "POS <x> <y>"
  | .dir => "DIR <degrees>"
  | .angle => "ANGLE <degrees>"
  | .compass => "COMPASS <degrees>"
  | .paint _ => "a color name on its own"
  | .feel _ => "ANGRY or HAPPY on its own"

/-- Why a command was not carried out. -/
inductive CommandError where
  | empty
  | unknownVerb (name : String)
  | usage (verb : Verb)
  | badNumber (word : String)
  | heading (e : HeadingError)

def CommandError.message : CommandError → String
  | .empty => "empty command"
  | .unknownVerb name => "unknown command `" ++ name ++ "`"
  | .usage verb => "expected " ++ verb.usage
  | .badNumber word => "`" ++ word ++ "` is not a valid number"
  | .heading e => e.message

/-! ### Verb tables -/

/-- Names bound to verbs, the latest binding of a name first. -/
abbrev VerbTable := List (String × Verb)

namespace VerbTable

/-- What `name` is bound to, in either case. -/
def find? (table : VerbTable) (name : String) : Option Verb :=
  (List.find? (fun b => Text.sameWord b.1 name) table).map (·.2)

def bind (table : VerbTable) (name : String) (verb : Verb) : VerbTable := (name, verb) :: table

theorem find?_bind (table : VerbTable) (name other : String) (verb : Verb) :
    (table.bind name verb).find? other =
      if Text.sameWord name other then some verb else table.find? other := by
  simp only [bind, find?, List.find?_cons]
  cases Text.sameWord name other <;> rfl

/-- The built-in verbs: `HEADING` is another name for `COMPASS`, and every color is a verb. -/
def standard : VerbTable :=
  [("MOVE", .move), ("TURN", .turn), ("ARC", .arc),
    ("POS", .pos), ("DIR", .dir), ("ANGLE", .angle), ("COMPASS", .compass), ("HEADING", .compass),
    ("DELAY", .delay), ("SOUND", .sound),
    ("ANGRY", .feel .angry), ("HAPPY", .feel .happy)] ++
  Color.all.map fun c => (c.name, .paint c)

end VerbTable

end RobotScript
