/-!
# Console

Completed lines of text, each under the name of the robot that wrote it. What a robot prints waits
for the next end of line of that robot, whatever others print meanwhile.
-/

namespace RobotScript

structure Console where
  /-- Text of unfinished lines, by robot. -/
  pending : List (String × String)
  lines : List String

namespace Console

def empty : Console := ⟨[], []⟩

/-- Appends `text` to the entry of `agent`, the first one or a new one. -/
def extend (agent text : String) : List (String × String) → List (String × String)
  | [] => [(agent, text)]
  | (name, before) :: rest =>
    if name == agent then (name, before ++ text) :: rest
    else (name, before) :: extend agent text rest

def print (c : Console) (agent text : String) : Console :=
  { c with pending := extend agent text c.pending }

/-- The unfinished line of `agent`, and the entries without it. -/
def take (agent : String) : List (String × String) → String × List (String × String)
  | [] => ("", [])
  | (name, text) :: rest =>
    if name == agent then (text, rest)
    else
      let (found, rest) := take agent rest
      (found, (name, text) :: rest)

def println (c : Console) (agent text : String) : Console :=
  let (before, pending) := take agent c.pending
  { pending, lines := c.lines ++ [agent ++ ": " ++ before ++ text] }

end Console

end RobotScript
