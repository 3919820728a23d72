import RobotScript.Expr.Token

/-!
# Faults of expressions
-/

namespace RobotScript

/-- Why an expression could not be read or evaluated. -/
inductive ExprError where
  | empty
  | unexpectedChar (c : Char)
  | unterminatedText
  | invalidNumber (literal : String)
  | unknownSensor (name : String)
  | unexpectedToken (t : Token)
  | unexpectedEnd
  | undefinedVariable (name : String)
  | typeMismatch (op : String) (left right : Value.Kind)
  | badOperand (op : String) (operand : Value.Kind)
  | divisionByZero
  | overflow
  | tooDeep (limit : Nat)

def ExprError.message : ExprError → String
  | .empty => "empty expression"
  | .unexpectedChar c => "unexpected character `" ++ c.toString ++ "`"
  | .unterminatedText => "unterminated string"
  | .invalidNumber literal => "invalid number `" ++ literal ++ "`"
  | .unknownSensor name => "unknown sensor `@" ++ name ++ "`"
  | .unexpectedToken t => "unexpected `" ++ t.display ++ "`"
  | .unexpectedEnd => "expression ended unexpectedly"
  | .undefinedVariable name => "`" ++ name ++ "` is not defined"
  | .typeMismatch op left right =>
    "unsupported operand types for `" ++ op ++ "`: " ++ left.name ++ " and " ++ right.name
  | .badOperand op operand => "bad operand type for `" ++ op ++ "`: " ++ operand.name
  | .divisionByZero => "division by zero"
  | .overflow => "integer overflow"
  | .tooDeep limit => "expression nested more than " ++ toString limit ++ " levels deep"

end RobotScript
