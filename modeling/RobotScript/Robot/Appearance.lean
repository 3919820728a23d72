import RobotScript.Text.Blank

/-!
# What a robot looks like
-/

namespace RobotScript

inductive Color where
  | red | green | blue | black | white | magenta | yellow | cyan
deriving DecidableEq, Repr

namespace Color

def all : List Color := [red, green, blue, black, white, magenta, yellow, cyan]

def name : Color → String
  | red => "RED"
  | green => "GREEN"
  | blue => "BLUE"
  | black => "BLACK"
  | white => "WHITE"
  | magenta => "MAGENTA"
  | yellow => "YELLOW"
  | cyan => "CYAN"

/-- The color called `word`, in either case. -/
def find? (word : String) : Option Color :=
  all.find? fun c => Text.sameWord c.name word

/-- Red, green and blue as one number, a byte each. -/
def rgb : Color → Nat
  | red => 0xFF0000
  | green => 0x00FF00
  | blue => 0x0000FF
  | black => 0x000000
  | white => 0xFFFFFF
  | magenta => 0xFF00FF
  | yellow => 0xFFFF00
  | cyan => 0x00FFFF

end Color

/-- What the indicator of a robot shows. -/
inductive Mood where
  | happy | angry
deriving DecidableEq, Repr

/-- Whether a robot is running a script. -/
inductive Status where
  | stopped | running
deriving DecidableEq, Repr

end RobotScript
