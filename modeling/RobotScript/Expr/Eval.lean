import RobotScript.Expr.Arithmetic

/-!
# Evaluation

An expression is evaluated from left to right in an environment whose sensors may answer
differently every time: their state `σ` is threaded through. `and` and `or` yield one of their
operands and skip the right one where the left decides; a comparison chain stops at its first
false link.
-/

namespace RobotScript

/-- What an expression can refer to. Reading a sensor may change the state behind it. -/
structure Environment (σ : Type) where
  lookup : String → Option Value
  read : Sensor → σ → Value × σ

abbrev Evaluation (σ α : Type) := σ → Except ExprError α × σ

namespace Evaluation

variable {σ α β : Type}

def pure (a : α) : Evaluation σ α := fun s => (.ok a, s)

def ofExcept (r : Except ExprError α) : Evaluation σ α := fun s => (r, s)

def andThen (m : Evaluation σ α) (f : α → Evaluation σ β) : Evaluation σ β := fun s =>
  match m s with
  | (.ok a, s) => f a s
  | (.error e, s) => (.error e, s)

end Evaluation

namespace Expr

open Evaluation

variable {σ : Type}

mutual

def eval (env : Environment σ) : Expr → Evaluation σ Value
  | .literal v => pure v
  | .variable name => ofExcept ((env.lookup name).elim (.error (.undefinedVariable name)) .ok)
  | .sensor s => fun st => let (v, st) := env.read s st; (.ok v, st)
  | .unary op e => (e.eval env).andThen fun v => ofExcept (op.apply v)
  | .binary op a b =>
    (a.eval env).andThen fun left =>
    (b.eval env).andThen fun right => ofExcept (op.apply left right)
  | .compare first links => (first.eval env).andThen fun left => evalLinks env left links
  | .and a b => (a.eval env).andThen fun left => if left.truthy then b.eval env else pure left
  | .or a b => (a.eval env).andThen fun left => if left.truthy then pure left else b.eval env

/-- A chain whose operand before the first link is `left`. -/
def evalLinks (env : Environment σ) (left : Value) :
    List (CompareOp × Expr) → Evaluation σ Value
  | [] => pure (.bool true)
  | (op, e) :: links =>
    (e.eval env).andThen fun right =>
    (ofExcept (op.apply left right)).andThen fun holds =>
      if holds then evalLinks env right links else pure (.bool false)

end

end Expr

end RobotScript
