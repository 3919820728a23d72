import RobotScript.Text.Printable

/-!
# Quoted text

A text between double quotes, on one line and with nothing invisible in it: quotes, backslashes and
line breaks are escaped, and so is every character that does not stand for itself on the screen.
-/

namespace RobotScript.Text

def escapeCode (c : Char) : List Char :=
  "\\u\x7b".toList ++ Nat.toDigits 16 c.toNat ++ ['\x7d']

def escapeChar (c : Char) : List Char :=
  if c == '"' then ['\\', '"']
  else if c == '\\' then ['\\', '\\']
  else if c == '\n' then ['\\', 'n']
  else if c == '\r' then ['\\', 'r']
  else if c == '\t' then ['\\', 't']
  else if c == '\x00' then ['\\', '0']
  else if isPrintable c then [c]
  else escapeCode c

/-- `text` as a quoted literal. -/
def quoted (text : String) : String :=
  String.ofList ('"' :: text.toList.flatMap escapeChar ++ ['"'])

end RobotScript.Text
