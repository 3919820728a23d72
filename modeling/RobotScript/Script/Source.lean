import RobotScript.Text.Blank

/-!
# Script text

A source is the lines of a script and a cursor. The cursor counts the lines already read, so it is
also the one-based number of the line read last.
-/

namespace RobotScript

/-! ### Comments -/

/-- `cs` up to the first `#` outside quotes. `quote` is the quote that is open before `cs`. -/
def stripCommentFrom (quote : Option Char) : List Char → List Char
  | [] => []
  | c :: cs =>
    match quote with
    | some q => c :: stripCommentFrom (if c == q then none else quote) cs
    | none =>
      if c == '#' then []
      else c :: stripCommentFrom (if c == '"' || c == '\'' then some c else none) cs

def stripComment (cs : List Char) : List Char := stripCommentFrom none cs

/-- Whether a line holds nothing but a comment. -/
def isComment (line : String) : Bool :=
  (Text.trimStart line.toList).head? == some '#'

/-- A line without its comment and the blanks at its end. -/
def content (line : String) : String :=
  String.ofList (Text.trimEnd (stripComment line.toList))

/-! ### Lines -/

/-- `cs` cut at its line feeds. A carriage return before a line feed belongs to it, and the last
line feed starts no further line. `line` holds the current line, last character first. -/
def splitLinesFrom (line : List Char) : List Char → List String
  | [] => if line.isEmpty then [] else [String.ofList line.reverse]
  | '\n' :: cs =>
    let line := if line.head? == some '\r' then line.tail else line
    String.ofList line.reverse :: splitLinesFrom [] cs
  | c :: cs => splitLinesFrom (c :: line) cs

def splitLines (text : String) : List String := splitLinesFrom [] text.toList

/-! ### Sources -/

structure Source where
  lines : List String
  cursor : Nat

namespace Source

def ofLines (lines : List String) : Source := ⟨lines, 0⟩

def ofText (text : String) : Source := ofLines (splitLines text)

/-- The first of `lines` that is not a comment, and the cursor after it; `n` lines precede. -/
def seek : List String → Nat → Option (String × Nat)
  | [], _ => none
  | line :: lines, n => if isComment line then seek lines (n + 1) else some (line, n + 1)

/-- Reads the next line that is not a comment. -/
def next (s : Source) : Option String × Source :=
  match seek (s.lines.drop s.cursor) s.cursor with
  | some (line, n) => (some (content line), { s with cursor := n })
  | none => (none, { s with cursor := s.lines.length })

/-- Makes `line` the line read last, as far as there are lines. -/
def jump (s : Source) (line : Nat) : Source :=
  { s with cursor := min line s.lines.length }

def rewind (s : Source) : Source := { s with cursor := 0 }

/-- The source after all of its lines have been read. -/
def exhaust (s : Source) : Source := { s with cursor := s.lines.length }

/-- Every line that is not a comment, with its one-based number. -/
def numbered (s : Source) : List (Nat × String) :=
  (s.lines.zipIdx 1).filterMap fun (line, n) =>
    if isComment line then none else some (n, content line)

end Source

end RobotScript
