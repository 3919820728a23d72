import RobotScript.Expr.Error
import RobotScript.Text.Blank

/-!
# Reading tokens

`Token.scan` cuts a text into tokens, always taking the longest one that starts at a place and
dropping the blanks between them.
-/

namespace RobotScript

open Text (isBlank)

def isNameStart (c : Char) : Bool := c.isAlpha || c == '_'

def isNameChar (c : Char) : Bool := c.isAlphanum || c == '_'

def isNumberChar (c : Char) : Bool := c.isDigit || c == '.'

/-- The longest symbol that starts with `c`, given the character after it. -/
def Symbol.at? (c : Char) (next : Option Char) : Option Symbol :=
  match c, next with
  | '*', some '*' => some .power
  | '/', some '/' => some .floorDiv
  | '<', some '=' => some .le
  | '>', some '=' => some .ge
  | '=', some '=' => some .eq
  | '!', some '=' => some .ne
  | '<', _ => some .lt
  | '>', _ => some .gt
  | '+', _ => some .plus
  | '-', _ => some .minus
  | '*', _ => some .times
  | '/', _ => some .divide
  | '%', _ => some .modulo
  | '(', _ => some .openParen
  | ')', _ => some .closeParen
  | _, _ => none

namespace Token

/-- The number a run of digits and points spells: an integer without a point, a float with one. -/
def ofNumber (lexeme : List Char) : Except ExprError Token :=
  if lexeme.contains '.' then
    match Decimal.Numeral.read? lexeme with
    | some n => .ok (.float n.toFloat)
    | none => .error (.invalidNumber (String.ofList lexeme))
  else
    let n := Decimal.digitsValue lexeme
    if (n : Int) ≤ Int64.maxValue.toInt then .ok (.int (Int64.ofNat n))
    else .error (.invalidNumber (String.ofList lexeme))

/-- The characters left over when a token starting before `rest` has been read. -/
abbrev Remaining (rest : List Char) := { r : List Char // r.length ≤ rest.length }

theorem length_dropWhile_le (p : Char → Bool) (cs : List Char) :
    (cs.dropWhile p).length ≤ cs.length :=
  (List.dropWhile_sublist p).length_le

/-- The characters from the first one outside `p` on. -/
def Remaining.skip (p : Char → Bool) (rest : List Char) : Remaining rest :=
  ⟨rest.dropWhile p, length_dropWhile_le p rest⟩

/-- The token that starts with `c`, which is not blank. -/
def next (c : Char) (rest : List Char) : Except ExprError (Token × Remaining rest) :=
  if c.isDigit || (c == '.' && rest.head?.any Char.isDigit) then
    (ofNumber (c :: rest.takeWhile isNumberChar)).map (·, .skip isNumberChar rest)
  else if c == '"' || c == '\'' then
    match h : rest.dropWhile (· != c) with
    | [] => .error .unterminatedText
    | _ :: r =>
      .ok (.text (String.ofList (rest.takeWhile (· != c))),
        ⟨r, by have := length_dropWhile_le (· != c) rest; rw [h] at this; simp at this; omega⟩)
  else if c == '@' then
    let name := String.ofList (rest.takeWhile isNameChar)
    match Sensor.find? name with
    | some s => .ok (.sensor s, .skip isNameChar rest)
    | none => .error (.unknownSensor name)
  else if isNameStart c then
    .ok (.name (String.ofList (c :: rest.takeWhile isNameChar)), .skip isNameChar rest)
  else
    match Symbol.at? c rest.head? with
    | some s => .ok (.symbol s, ⟨rest.drop (s.text.length - 1), by simp⟩)
    | none => .error (.unexpectedChar c)

def scan (cs : List Char) : Except ExprError (List Token) :=
  match cs with
  | [] => .ok []
  | c :: rest =>
    if isBlank c then scan rest
    else
      match next c rest with
      | .error e => .error e
      | .ok (t, ⟨r, _⟩) => (scan r).map (t :: ·)
termination_by cs.length
decreasing_by all_goals simp; try omega

end Token

end RobotScript
