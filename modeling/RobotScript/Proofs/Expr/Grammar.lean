import RobotScript.Expr.Parser

/-!
# The grammar of expressions

`Derives n rule ts e` says that `rule` of the grammar derives the tokens `ts`, all of them, with the
tree `e`, and that nothing in the derivation is nested more than `n` levels deep. A bracket, the
operand of a sign or of `not` and an exponent are one level below what they stand in. Operators of
one rule group from the left; exponents group from the right, as an exponent is a `unary`.
-/

namespace RobotScript.Grammar

inductive Rule where
  | or | and | not | compare | sum | term | unary | power | atom
deriving DecidableEq, Repr

def compareOps : List (Symbol × CompareOp) :=
  [(.lt, .lt), (.le, .le), (.gt, .gt), (.ge, .ge), (.eq, .eq), (.ne, .ne)]

def sumOps : List (Symbol × BinaryOp) := [(.plus, .add), (.minus, .sub)]

def termOps : List (Symbol × BinaryOp) :=
  [(.times, .mul), (.divide, .div), (.floorDiv, .floorDiv), (.modulo, .mod)]

def signs : List (Symbol × UnaryOp) := [(.minus, .neg), (.plus, .pos)]

def trueWords : List String := ["True", "true"]

def falseWords : List String := ["False", "false"]

/-- The words of the grammar, which name no variable. -/
def reserved : List String := ["and", "or", "not"]

mutual

inductive Derives : Nat → Rule → List Token → Expr → Prop
  | orFirst {n ts e} (first : Derives n .and ts e) : Derives n .or ts e
  | orNext {n ts us a b} (left : Derives n .or ts a) (right : Derives n .and us b) :
    Derives n .or (ts ++ .name "or" :: us) (.or a b)
  | andFirst {n ts e} (first : Derives n .not ts e) : Derives n .and ts e
  | andNext {n ts us a b} (left : Derives n .and ts a) (right : Derives n .not us b) :
    Derives n .and (ts ++ .name "and" :: us) (.and a b)
  | notWord {n ts e} (operand : Derives n .not ts e) :
    Derives (n + 1) .not (.name "not" :: ts) (.unary .not e)
  | notPlain {n ts e} (plain : Derives n .compare ts e) : Derives n .not ts e
  | compareFirst {n ts e} (first : Derives n .sum ts e) : Derives n .compare ts e
  | compareChain {n ts us a link links} (first : Derives n .sum ts a)
    (chain : Links n us (link :: links)) :
    Derives n .compare (ts ++ us) (.compare a (link :: links))
  | sumFirst {n ts e} (first : Derives n .term ts e) : Derives n .sum ts e
  | sumNext {n ts us a b s op} (known : (s, op) ∈ sumOps) (left : Derives n .sum ts a)
    (right : Derives n .term us b) :
    Derives n .sum (ts ++ .symbol s :: us) (.binary op a b)
  | termFirst {n ts e} (first : Derives n .unary ts e) : Derives n .term ts e
  | termNext {n ts us a b s op} (known : (s, op) ∈ termOps) (left : Derives n .term ts a)
    (right : Derives n .unary us b) :
    Derives n .term (ts ++ .symbol s :: us) (.binary op a b)
  | unarySign {n ts e s op} (known : (s, op) ∈ signs) (operand : Derives n .unary ts e) :
    Derives (n + 1) .unary (.symbol s :: ts) (.unary op e)
  | unaryPlain {n ts e} (plain : Derives n .power ts e) : Derives n .unary ts e
  | powerBase {n ts e} (base : Derives n .atom ts e) : Derives n .power ts e
  | powerExponent {n ts us a b} (base : Derives (n + 1) .atom ts a)
    (exponent : Derives n .unary us b) :
    Derives (n + 1) .power (ts ++ .symbol .power :: us) (.binary .pow a b)
  | int {n i} : Derives n .atom [.int i] (.literal (.int i))
  | float {n x} : Derives n .atom [.float x] (.literal (.float x))
  | text {n s} : Derives n .atom [.text s] (.literal (.text s))
  | sensor {n s} : Derives n .atom [.sensor s] (.sensor s)
  | trueWord {n name} (word : name ∈ trueWords) :
    Derives n .atom [.name name] (.literal (.bool true))
  | falseWord {n name} (word : name ∈ falseWords) :
    Derives n .atom [.name name] (.literal (.bool false))
  | freeName {n name} (free : name ∉ trueWords ++ falseWords ++ reserved) :
    Derives n .atom [.name name] (.variable name)
  | bracket {n ts e} (inside : Derives n .or ts e) :
    Derives (n + 1) .atom (.symbol .openParen :: (ts ++ [.symbol .closeParen])) e

/-- The links of a comparison chain, any number of them. -/
inductive Links : Nat → List Token → List (CompareOp × Expr) → Prop
  | nil {n} : Links n [] []
  | cons {n ts us e links s op} (known : (s, op) ∈ compareOps) (right : Derives n .sum ts e)
    (rest : Links n us links) :
    Links n (.symbol s :: (ts ++ us)) ((op, e) :: links)

end

mutual

theorem derives_succ {n : Nat} {rule : Rule} {ts : List Token} {e : Expr} :
    Derives n rule ts e → Derives (n + 1) rule ts e
  | .orFirst first => .orFirst (derives_succ first)
  | .orNext left right => .orNext (derives_succ left) (derives_succ right)
  | .andFirst first => .andFirst (derives_succ first)
  | .andNext left right => .andNext (derives_succ left) (derives_succ right)
  | .notWord operand => .notWord (derives_succ operand)
  | .notPlain plain => .notPlain (derives_succ plain)
  | .compareFirst first => .compareFirst (derives_succ first)
  | .compareChain first chain => .compareChain (derives_succ first) (links_succ chain)
  | .sumFirst first => .sumFirst (derives_succ first)
  | .sumNext known left right => .sumNext known (derives_succ left) (derives_succ right)
  | .termFirst first => .termFirst (derives_succ first)
  | .termNext known left right => .termNext known (derives_succ left) (derives_succ right)
  | .unarySign known operand => .unarySign known (derives_succ operand)
  | .unaryPlain plain => .unaryPlain (derives_succ plain)
  | .powerBase base => .powerBase (derives_succ base)
  | .powerExponent base exponent => .powerExponent (derives_succ base) (derives_succ exponent)
  | .int => .int
  | .float => .float
  | .text => .text
  | .sensor => .sensor
  | .trueWord word => .trueWord word
  | .falseWord word => .falseWord word
  | .freeName free => .freeName free
  | .bracket inside => .bracket (derives_succ inside)

theorem links_succ {n : Nat} {ts : List Token} {links : List (CompareOp × Expr)} :
    Links n ts links → Links (n + 1) ts links
  | .nil => .nil
  | .cons known right rest => .cons known (derives_succ right) (links_succ rest)

end

theorem derives_mono {n m : Nat} {rule : Rule} {ts : List Token} {e : Expr} (le : n ≤ m)
    (derives : Derives n rule ts e) : Derives m rule ts e := by
  induction le with
  | refl => exact derives
  | step _ ih => exact derives_succ ih

/-! ### First tokens -/

/-- What a phrase may start with: only a `unary` starts with a sign, and only a `not` with that
word. -/
def Rule.Starts (rule : Rule) (t : Token) : Prop :=
  match rule with
  | .or | .and | .not => True
  | .compare | .sum | .term | .unary => t ≠ .name "not"
  | .power | .atom => t ≠ .name "not" ∧ t ≠ .symbol .minus ∧ t ≠ .symbol .plus

theorem derives_starts {n : Nat} {rule : Rule} {ts : List Token} {e : Expr} :
    Derives n rule ts e → ∃ t us, ts = t :: us ∧ rule.Starts t
  | .orFirst first | .andFirst first | .notPlain first => by
    obtain ⟨t, us, rfl, -⟩ := derives_starts first
    exact ⟨t, us, rfl, trivial⟩
  | .orNext left _ | .andNext left _ => by
    obtain ⟨t, us, rfl, -⟩ := derives_starts left
    exact ⟨t, _, rfl, trivial⟩
  | .notWord _ => ⟨_, _, rfl, trivial⟩
  | .compareFirst first | .sumFirst first | .termFirst first | .powerBase first
  | .compareChain first _ | .sumNext _ first _ | .termNext _ first _ | .powerExponent first _ => by
    obtain ⟨t, us, rfl, starts⟩ := derives_starts first
    exact ⟨t, _, rfl, starts⟩
  | .unarySign _ _ => ⟨_, _, rfl, by simp [Rule.Starts]⟩
  | .unaryPlain plain => by
    obtain ⟨t, us, rfl, starts⟩ := derives_starts plain
    exact ⟨t, us, rfl, starts.1⟩
  | .int | .float | .text | .sensor | .bracket _ => ⟨_, _, rfl, by simp [Rule.Starts]⟩
  | .trueWord word | .falseWord word => by
    refine ⟨_, _, rfl, ?_⟩
    simp only [trueWords, falseWords, List.mem_cons, List.not_mem_nil, or_false] at word
    rcases word with rfl | rfl <;> simp [Rule.Starts]
  | .freeName free => by
    refine ⟨_, _, rfl, ?_⟩
    simp only [reserved, List.mem_append, List.mem_cons, not_or] at free
    simp [Rule.Starts, free]

end RobotScript.Grammar
