import RobotScript.Expr.Value
import RobotScript.Expr.Sensor
import RobotScript.Text.Quoted

/-!
# Tokens of expressions
-/

namespace RobotScript

inductive Symbol where
  | power | floorDiv | le | ge | eq | ne | lt | gt | plus | minus | times | divide | modulo
  | openParen | closeParen
deriving DecidableEq, Repr

def Symbol.text : Symbol → String
  | .power => "**"
  | .floorDiv => "//"
  | .le => "<="
  | .ge => ">="
  | .eq => "=="
  | .ne => "!="
  | .lt => "<"
  | .gt => ">"
  | .plus => "+"
  | .minus => "-"
  | .times => "*"
  | .divide => "/"
  | .modulo => "%"
  | .openParen => "("
  | .closeParen => ")"

inductive Token where
  | int (i : Int64)
  | float (x : Float)
  | text (s : String)
  | name (s : String)
  | sensor (s : Sensor)
  | symbol (s : Symbol)

/-- How a message shows a token. -/
def Token.display : Token → String
  | .int i => toString i.toInt
  | .float x => Decimal.text64 x
  | .text s => Text.quoted s
  | .name s => s
  | .sensor s => "@" ++ s.label
  | .symbol s => s.text

end RobotScript
