import RobotScript.Expr.Basic
import RobotScript.Expr.Lexer

/-!
# Reading expressions

The grammar, loosest binding first:

    or      := and ("or" and)*
    and     := not ("and" not)*
    not     := "not" not | compare
    compare := sum (("<" | "<=" | ">" | ">=" | "==" | "!=") sum)*
    sum     := term (("+" | "-") term)*
    term    := unary (("*" | "/" | "//" | "%") unary)*
    unary   := ("-" | "+") unary | power
    power   := atom ("**" unary)?
    atom    := number | text | "True" | "False" | name | sensor | "(" or ")"

A parser takes at least one token. The rules that lead back into the grammar (a bracket, the
operand of a sign or of `not`, an exponent) go one level down in a tower of `maxNesting` levels,
so the recursion is on the levels left and not on the tokens.
-/

namespace RobotScript

/-- Deepest nesting of brackets, signs, negations and exponents in an expression. -/
def maxNesting : Nat := 64

namespace Grammar

/-- What is left of `ts` once at least one token has been taken. -/
abbrev Shorter (ts : List Token) := { rest : List Token // rest.length < ts.length }

/-- What is left of `ts` once any number of tokens has been taken. -/
abbrev NoLonger (ts : List Token) := { rest : List Token // rest.length ≤ ts.length }

abbrev Parser := (ts : List Token) → Except ExprError (Expr × Shorter ts)

/-- Takes `operand`s as long as each is announced by a token that `join?` knows. -/
def chain {β : Type} (operand : Parser) (join? : Token → Option (β → Expr → β)) (acc : β)
    (ts : List Token) : Except ExprError (β × NoLonger ts) :=
  match ts with
  | [] => .ok (acc, ⟨[], Nat.le_refl _⟩)
  | t :: ts =>
    match join? t with
    | none => .ok (acc, ⟨t :: ts, Nat.le_refl _⟩)
    | some join =>
      match operand ts with
      | .error e => .error e
      | .ok (right, ⟨rest, h⟩) =>
        match chain operand join? (join acc right) rest with
        | .error e => .error e
        | .ok (e, ⟨rest', h'⟩) => .ok (e, ⟨rest', by simp; omega⟩)
termination_by ts.length
decreasing_by simp; omega

/-- An `operand` and the chain after it, joined from the left. -/
def leftAssoc (operand : Parser) (join? : Token → Option (Expr → Expr → Expr)) : Parser :=
  fun ts =>
    match operand ts with
    | .error e => .error e
    | .ok (first, ⟨rest, h⟩) =>
      match chain operand join? first rest with
      | .error e => .error e
      | .ok (e, ⟨rest', h'⟩) => .ok (e, ⟨rest', by omega⟩)

/-- The rules that nesting leads back to. -/
structure Level where
  or : Parser
  not : Parser
  unary : Parser

/-- Below the last level nothing can be read. -/
def Level.bottom : Level :=
  let fail : Parser := fun _ => .error (.tooDeep maxNesting)
  ⟨fail, fail, fail⟩

/-! ### The rules of one level

`inner` is the level below, for nested parts. -/

/-- A name that stands for a value; the words of the grammar do not. -/
def ofName (name : String) : Except ExprError Expr :=
  if name == "True" || name == "true" then .ok (.literal (.bool true))
  else if name == "False" || name == "false" then .ok (.literal (.bool false))
  else if name == "and" || name == "or" || name == "not" then .error (.unexpectedToken (.name name))
  else .ok (.variable name)

def atom (inner : Level) : Parser
  | [] => .error .unexpectedEnd
  | t :: ts =>
    let leaf (e : Expr) : Except ExprError (Expr × Shorter (t :: ts)) := .ok (e, ⟨ts, by simp⟩)
    match t with
    | .int i => leaf (.literal (.int i))
    | .float x => leaf (.literal (.float x))
    | .text s => leaf (.literal (.text s))
    | .sensor s => leaf (.sensor s)
    | .name name => (ofName name).bind leaf
    | .symbol .openParen =>
      match inner.or ts with
      | .error e => .error e
      | .ok (e, ⟨.symbol .closeParen :: rest, h⟩) =>
        .ok (e, ⟨rest, by simp at h ⊢; omega⟩)
      | .ok (_, ⟨t :: _, _⟩) => .error (.unexpectedToken t)
      | .ok (_, ⟨[], _⟩) => .error .unexpectedEnd
    | .symbol _ => .error (.unexpectedToken t)

def power (inner : Level) : Parser := fun ts =>
  match atom inner ts with
  | .error e => .error e
  | .ok (base, ⟨.symbol .power :: rest, h⟩) =>
    match inner.unary rest with
    | .error e => .error e
    | .ok (exponent, ⟨rest', h'⟩) =>
      .ok (.binary .pow base exponent, ⟨rest', by simp at h; omega⟩)
  | .ok (base, rest) => .ok (base, rest)

/-- A part nested under the operator `t`, one level down. -/
def operand (wrap : Expr → Expr) (p : Parser) (t : Token) (ts : List Token) :
    Except ExprError (Expr × Shorter (t :: ts)) :=
  match p ts with
  | .error e => .error e
  | .ok (e, ⟨rest, h⟩) => .ok (wrap e, ⟨rest, by simp; omega⟩)

def unary (inner : Level) : Parser
  | .symbol .minus :: ts => operand (.unary .neg) inner.unary (.symbol .minus) ts
  | .symbol .plus :: ts => operand (.unary .pos) inner.unary (.symbol .plus) ts
  | ts => power inner ts

def termOp? : Token → Option (Expr → Expr → Expr)
  | .symbol .times => some (.binary .mul)
  | .symbol .floorDiv => some (.binary .floorDiv)
  | .symbol .divide => some (.binary .div)
  | .symbol .modulo => some (.binary .mod)
  | _ => none

def term (inner : Level) : Parser := leftAssoc (unary inner) termOp?

def sumOp? : Token → Option (Expr → Expr → Expr)
  | .symbol .plus => some (.binary .add)
  | .symbol .minus => some (.binary .sub)
  | _ => none

def sum (inner : Level) : Parser := leftAssoc (term inner) sumOp?

def compareOp? : Token → Option CompareOp
  | .symbol .lt => some .lt
  | .symbol .le => some .le
  | .symbol .gt => some .gt
  | .symbol .ge => some .ge
  | .symbol .eq => some .eq
  | .symbol .ne => some .ne
  | _ => none

/-- Adds a link to a comparison chain, the latest in front. -/
def linkOp? (t : Token) : Option (List (CompareOp × Expr) → Expr → List (CompareOp × Expr)) :=
  (compareOp? t).map fun op links e => (op, e) :: links

/-- A chain without links is its first operand. -/
def ofChain (first : Expr) (links : List (CompareOp × Expr)) : Expr :=
  if links.isEmpty then first else .compare first links

def comparison (inner : Level) : Parser := fun ts =>
  match sum inner ts with
  | .error e => .error e
  | .ok (first, ⟨rest, h⟩) =>
    match chain (sum inner) linkOp? [] rest with
    | .error e => .error e
    | .ok (links, ⟨rest', h'⟩) => .ok (ofChain first links.reverse, ⟨rest', by omega⟩)

def negation (inner : Level) : Parser
  | .name "not" :: ts => operand (.unary .not) inner.not (.name "not") ts
  | ts => comparison inner ts

def andOp? : Token → Option (Expr → Expr → Expr)
  | .name "and" => some .and
  | _ => none

def conjunction (inner : Level) : Parser := leftAssoc (negation inner) andOp?

def orOp? : Token → Option (Expr → Expr → Expr)
  | .name "or" => some .or
  | _ => none

def disjunction (inner : Level) : Parser := leftAssoc (conjunction inner) orOp?

/-- The level that still has `n` levels below it. -/
def level : Nat → Level
  | 0 => step .bottom
  | n + 1 => step (level n)
where
  step (inner : Level) : Level := ⟨disjunction inner, negation inner, unary inner⟩

end Grammar

namespace Expr

/-- The expression a token list spells, all of it. -/
def ofTokens (ts : List Token) : Except ExprError Expr :=
  match (Grammar.level maxNesting).or ts with
  | .error e => .error e
  | .ok (e, ⟨[], _⟩) => .ok e
  | .ok (_, ⟨t :: _, _⟩) => .error (.unexpectedToken t)

def ofText (text : List Char) : Except ExprError Expr :=
  match Token.scan text with
  | .error e => .error e
  | .ok [] => .error .empty
  | .ok ts => ofTokens ts

end Expr

end RobotScript
