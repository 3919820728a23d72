import RobotScript.Text.Blank

/-!
# Sensors

The live readings that an expression names with `@`.
-/

namespace RobotScript

inductive Sensor where
  | x | y | angle | compass | distance | range | light | moving | random | name
deriving DecidableEq, Repr

namespace Sensor

def all : List Sensor :=
  [x, y, angle, compass, distance, range, light, moving, random, name]

def label : Sensor → String
  | x => "x"
  | y => "y"
  | angle => "angle"
  | compass => "compass"
  | distance => "distance"
  | range => "range"
  | light => "light"
  | moving => "moving"
  | random => "random"
  | name => "name"

/-- The sensor called `word`, in either case. -/
def find? (word : String) : Option Sensor :=
  all.find? fun s => Text.sameWord s.label word

end Sensor

end RobotScript
