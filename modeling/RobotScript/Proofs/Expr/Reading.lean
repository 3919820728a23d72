import Mathlib.Data.Set.Subsingleton
import RobotScript.Proofs.Expr.Grammar
import RobotScript.Proofs.Expr.Phrases

/-!
# Reading the grammar

The parsers take exactly the phrases of the grammar. In a derivation no phrase is followed by a
token that would go on with it, as every rule's own operators bind looser than those of its
operands, so greed never takes too much.
-/

namespace RobotScript.Grammar

/-! ### The rules of one level -/

/-- What may stand one level down. -/
def Nested (n : Nat) (rule : Rule) (ts : List Token) (e : Expr) : Prop :=
  ∃ m, n = m + 1 ∧ Derives m rule ts e

/-! The tokens that go on with a phrase: the operators of its rule and those that bind tighter. -/

def extendsUnary (t : Token) : Prop := t = .symbol .power

def extendsTerm (t : Token) : Prop := extendsUnary t ∨ termOp? t ≠ none

def extendsSum (t : Token) : Prop := extendsTerm t ∨ sumOp? t ≠ none

def extendsCompare (t : Token) : Prop := extendsSum t ∨ linkOp? t ≠ none

def extendsAnd (t : Token) : Prop := extendsCompare t ∨ andOp? t ≠ none

def extendsOr (t : Token) : Prop := extendsAnd t ∨ orOp? t ≠ none

variable {n : Nat} {inner : Level}

theorem derives_of_ofName {name : String} {e : Expr} (known : ofName name = .ok e) :
    Derives n .atom [.name name] e := by
  unfold ofName at known
  split at known
  · cases known
    exact .trueWord (by simp_all [trueWords])
  · split at known
    · cases known
      exact .falseWord (by simp_all [falseWords])
    · split at known
      · cases known
      · cases known
        exact .freeName (by simp_all [trueWords, falseWords, reserved])

theorem ofName_of_derives {name : String} {e : Expr} (derives : Derives n .atom [.name name] e) :
    ofName name = .ok e := by
  generalize phrase : [Token.name name] = ts at derives
  cases derives with
  | trueWord word =>
    simp only [List.cons.injEq, Token.name.injEq, and_true] at phrase
    subst phrase
    simp only [trueWords, List.mem_cons, List.not_mem_nil, or_false] at word
    rcases word with rfl | rfl <;> rfl
  | falseWord word =>
    simp only [List.cons.injEq, Token.name.injEq, and_true] at phrase
    subst phrase
    simp only [falseWords, List.mem_cons, List.not_mem_nil, or_false] at word
    rcases word with rfl | rfl <;> rfl
  | freeName free =>
    simp only [List.cons.injEq, Token.name.injEq, and_true] at phrase
    subst phrase
    simp_all [ofName, trueWords, falseWords, reserved]
  | _ => simp at phrase

theorem takes_name {name : String} {e : Expr} (known : ofName name = .ok e) (rest : List Token) :
    (atom inner).Takes ([.name name] ++ rest) e rest := by
  refine ⟨by simp, ?_⟩
  simp only [List.singleton_append, atom, known]
  rfl

theorem atom_reads (below : Reads inner.or (Nested n .or) extendsOr) :
    Reads (atom inner) (Derives n .atom) (fun _ => False) where
  sound {ts e rest} := by
    rintro ⟨h, taken⟩
    cases ts with
    | nil => cases taken
    | cons t ts =>
      cases t with
      | int i => cases taken; exact ⟨[.int i], rfl, .int⟩
      | float x => cases taken; exact ⟨[.float x], rfl, .float⟩
      | text s => cases taken; exact ⟨[.text s], rfl, .text⟩
      | sensor s => cases taken; exact ⟨[.sensor s], rfl, .sensor⟩
      | name name =>
        simp only [atom] at taken
        cases known : ofName name with
        | error fault => rw [known] at taken; cases taken
        | ok e =>
          rw [known] at taken
          cases taken
          exact ⟨[.name name], rfl, derives_of_ofName known⟩
      | symbol s =>
        cases s with
        | openParen =>
          simp only [atom] at taken
          split at taken
          · cases taken
          · rename_i e' rest' h' taken'
            cases taken
            obtain ⟨us, rfl, m, rfl, inside⟩ := below.sound ⟨h', taken'⟩
            exact ⟨.symbol .openParen :: (us ++ [.symbol .closeParen]), by simp, .bracket inside⟩
          · cases taken
          · cases taken
        | _ => cases taken
  complete {us e rest} := by
    intro phrased _
    cases phrased with
    | int | float | text | sensor => exact ⟨by simp, rfl⟩
    | trueWord word => exact takes_name (ofName_of_derives (n := n) (.trueWord word)) rest
    | falseWord word => exact takes_name (ofName_of_derives (n := n) (.falseWord word)) rest
    | freeName free => exact takes_name (ofName_of_derives (n := n) (.freeName free)) rest
    | @bracket m ts _ inside =>
      have ends : ∀ t ∈ (Token.symbol .closeParen :: rest).head?, ¬ extendsOr t := by
        simp [extendsOr, extendsAnd, extendsCompare, extendsSum, extendsTerm, extendsUnary,
          termOp?, sumOp?, linkOp?, compareOp?, andOp?, orOp?]
      obtain ⟨h, taken⟩ := below.complete ⟨m, rfl, inside⟩ ends
      rw [List.cons_append, List.append_assoc, List.singleton_append]
      refine ⟨by simp; omega, ?_⟩
      simp only [atom, taken]

theorem power_reads (base : Reads (atom inner) (Derives n .atom) (fun _ => False))
    (below : Reads inner.unary (Nested n .unary) extendsUnary) :
    Reads (power inner) (Derives n .power) extendsUnary where
  sound {ts e rest} := by
    rintro ⟨h, taken⟩
    unfold power at taken
    split at taken
    · cases taken
    · rename_i a rest' h' taken'
      obtain ⟨us, rfl, single⟩ := base.sound ⟨h', taken'⟩
      split at taken
      · cases taken
      · rename_i b rest'' h'' exponent
        cases taken
        obtain ⟨vs, rfl, m, rfl, exponent⟩ := below.sound ⟨h'', exponent⟩
        exact ⟨us ++ .symbol .power :: vs, by simp, .powerExponent single exponent⟩
    · rename_i a rest' _ taken'
      cases taken
      obtain ⟨us, parts, single⟩ := base.sound ⟨h, taken'⟩
      exact ⟨us, parts, .powerBase single⟩
  complete {us e rest} := by
    intro phrased ends
    cases phrased with
    | powerBase single =>
      obtain ⟨h, taken⟩ := base.complete single (by simp)
      refine ⟨h, ?_⟩
      unfold power
      rw [taken]
      split
      · rename_i heq
        cases heq
      · rename_i heq
        cases heq
        exact absurd rfl (ends _ rfl)
      · rename_i _ heq
        cases heq
        rfl
    | @powerExponent m us vs a b single exponent =>
      have reached : (atom inner).Takes (us ++ .symbol .power :: (vs ++ rest)) a
          (.symbol .power :: (vs ++ rest)) := base.complete single (by simp)
      obtain ⟨h, taken⟩ := reached
      obtain ⟨h', taken'⟩ := below.complete ⟨m, rfl, exponent⟩ ends
      rw [List.append_assoc, List.cons_append]
      refine ⟨by simp; omega, ?_⟩
      simp only [power, taken, taken']

theorem unary_eq_power (ts : List Token) (notMinus : ts.head? ≠ some (.symbol .minus))
    (notPlus : ts.head? ≠ some (.symbol .plus)) : unary inner ts = power inner ts := by
  unfold unary
  split
  · exact absurd rfl notMinus
  · exact absurd rfl notPlus
  · rfl

theorem unary_reads (plain : Reads (power inner) (Derives n .power) extendsUnary)
    (below : Reads inner.unary (Nested n .unary) extendsUnary) :
    Reads (unary inner) (Derives n .unary) extendsUnary where
  sound {ts e rest} := by
    rintro ⟨h, taken⟩
    unfold unary at taken
    split at taken
    · obtain ⟨a, inside, rfl⟩ := takes_operand.1 ⟨h, taken⟩
      obtain ⟨us, rfl, m, rfl, operand⟩ := below.sound inside
      exact ⟨.symbol .minus :: us, rfl, .unarySign (by simp [signs]) operand⟩
    · obtain ⟨a, inside, rfl⟩ := takes_operand.1 ⟨h, taken⟩
      obtain ⟨us, rfl, m, rfl, operand⟩ := below.sound inside
      exact ⟨.symbol .plus :: us, rfl, .unarySign (by simp [signs]) operand⟩
    · obtain ⟨us, parts, single⟩ := plain.sound ⟨h, taken⟩
      exact ⟨us, parts, .unaryPlain single⟩
  complete {us e rest} := by
    intro phrased ends
    cases phrased with
    | @unarySign m us a s op known operand =>
      have taken := below.complete ⟨m, rfl, operand⟩ ends
      simp only [signs, List.mem_cons, Prod.mk.injEq, List.not_mem_nil, or_false] at known
      rcases known with ⟨rfl, rfl⟩ | ⟨rfl, rfl⟩
      · exact takes_operand.2 ⟨a, taken, rfl⟩
      · exact takes_operand.2 ⟨a, taken, rfl⟩
    | unaryPlain single =>
      obtain ⟨t, us', rfl, -, notMinus, notPlus⟩ := derives_starts single
      obtain ⟨h, taken⟩ := plain.complete single ends
      exact ⟨h, (unary_eq_power _ (by simpa using notMinus) (by simpa using notPlus)).trans taken⟩

/-! ### Operators -/

theorem termOp?_eq_some {t : Token} {join : Expr → Expr → Expr} :
    termOp? t = some join ↔ ∃ s op, (s, op) ∈ termOps ∧ t = .symbol s ∧ join = .binary op := by
  constructor
  · intro known
    unfold termOp? at known
    split at known <;> cases known
    · exact ⟨.times, .mul, by simp [termOps], rfl, rfl⟩
    · exact ⟨.floorDiv, .floorDiv, by simp [termOps], rfl, rfl⟩
    · exact ⟨.divide, .div, by simp [termOps], rfl, rfl⟩
    · exact ⟨.modulo, .mod, by simp [termOps], rfl, rfl⟩
  · rintro ⟨s, op, known, rfl, rfl⟩
    simp only [termOps, List.mem_cons, Prod.mk.injEq, List.not_mem_nil, or_false] at known
    rcases known with ⟨rfl, rfl⟩ | ⟨rfl, rfl⟩ | ⟨rfl, rfl⟩ | ⟨rfl, rfl⟩ <;> rfl

theorem sumOp?_eq_some {t : Token} {join : Expr → Expr → Expr} :
    sumOp? t = some join ↔ ∃ s op, (s, op) ∈ sumOps ∧ t = .symbol s ∧ join = .binary op := by
  constructor
  · intro known
    unfold sumOp? at known
    split at known <;> cases known
    · exact ⟨.plus, .add, by simp [sumOps], rfl, rfl⟩
    · exact ⟨.minus, .sub, by simp [sumOps], rfl, rfl⟩
  · rintro ⟨s, op, known, rfl, rfl⟩
    simp only [sumOps, List.mem_cons, Prod.mk.injEq, List.not_mem_nil, or_false] at known
    rcases known with ⟨rfl, rfl⟩ | ⟨rfl, rfl⟩ <;> rfl

theorem compareOp?_eq_some {t : Token} {op : CompareOp} :
    compareOp? t = some op ↔ ∃ s, (s, op) ∈ compareOps ∧ t = .symbol s := by
  constructor
  · intro known
    unfold compareOp? at known
    split at known <;> cases known <;> exact ⟨_, by simp [compareOps], rfl⟩
  · rintro ⟨s, known, rfl⟩
    simp only [compareOps, List.mem_cons, Prod.mk.injEq, List.not_mem_nil, or_false] at known
    rcases known with ⟨rfl, rfl⟩ | ⟨rfl, rfl⟩ | ⟨rfl, rfl⟩ | ⟨rfl, rfl⟩ | ⟨rfl, rfl⟩ | ⟨rfl, rfl⟩ <;>
      rfl

theorem andOp?_eq_some {t : Token} {join : Expr → Expr → Expr} :
    andOp? t = some join ↔ t = .name "and" ∧ join = .and := by
  constructor
  · intro known
    unfold andOp? at known
    split at known <;> cases known
    exact ⟨rfl, rfl⟩
  · rintro ⟨rfl, rfl⟩
    rfl

theorem orOp?_eq_some {t : Token} {join : Expr → Expr → Expr} :
    orOp? t = some join ↔ t = .name "or" ∧ join = .or := by
  constructor
  · intro known
    unfold orOp? at known
    split at known <;> cases known
    exact ⟨rfl, rfl⟩
  · rintro ⟨rfl, rfl⟩
    rfl

/-! ### Rules with operators -/

theorem term_leftRecursive : LeftRecursive (Derives n .unary) (Derives n .term) termOp? := by
  intro ts e
  constructor
  · intro derives
    cases derives with
    | termFirst first => exact .inl first
    | termNext known left right =>
      have announced := termOp?_eq_some.2 ⟨_, _, known, rfl, rfl⟩
      exact .inr ⟨_, _, _, _, _, _, left, announced, right, rfl, rfl⟩
  · rintro (first | ⟨us, a, t, join, vs, b, left, announced, right, rfl, rfl⟩)
    · exact .termFirst first
    · obtain ⟨s, op, known, rfl, rfl⟩ := termOp?_eq_some.1 announced
      exact .termNext known left right

theorem sum_leftRecursive : LeftRecursive (Derives n .term) (Derives n .sum) sumOp? := by
  intro ts e
  constructor
  · intro derives
    cases derives with
    | sumFirst first => exact .inl first
    | sumNext known left right =>
      have announced := sumOp?_eq_some.2 ⟨_, _, known, rfl, rfl⟩
      exact .inr ⟨_, _, _, _, _, _, left, announced, right, rfl, rfl⟩
  · rintro (first | ⟨us, a, t, join, vs, b, left, announced, right, rfl, rfl⟩)
    · exact .sumFirst first
    · obtain ⟨s, op, known, rfl, rfl⟩ := sumOp?_eq_some.1 announced
      exact .sumNext known left right

theorem and_leftRecursive : LeftRecursive (Derives n .not) (Derives n .and) andOp? := by
  intro ts e
  constructor
  · intro derives
    cases derives with
    | andFirst first => exact .inl first
    | andNext left right => exact .inr ⟨_, _, _, _, _, _, left, rfl, right, rfl, rfl⟩
  · rintro (first | ⟨us, a, t, join, vs, b, left, announced, right, rfl, rfl⟩)
    · exact .andFirst first
    · obtain ⟨rfl, rfl⟩ := andOp?_eq_some.1 announced
      exact .andNext left right

theorem or_leftRecursive : LeftRecursive (Derives n .and) (Derives n .or) orOp? := by
  intro ts e
  constructor
  · intro derives
    cases derives with
    | orFirst first => exact .inl first
    | orNext left right => exact .inr ⟨_, _, _, _, _, _, left, rfl, right, rfl, rfl⟩
  · rintro (first | ⟨us, a, t, join, vs, b, left, announced, right, rfl, rfl⟩)
    · exact .orFirst first
    · obtain ⟨rfl, rfl⟩ := orOp?_eq_some.1 announced
      exact .orNext left right

theorem term_reads (part : Reads (unary inner) (Derives n .unary) extendsUnary) :
    Reads (term inner) (Derives n .term) extendsTerm := by
  apply leftAssoc_reads term_leftRecursive part
  intro t announces
  obtain ⟨join, announced⟩ := Option.ne_none_iff_exists'.1 announces
  obtain ⟨s, op, known, rfl, -⟩ := termOp?_eq_some.1 announced
  rintro ⟨⟩
  simp [termOps] at known

theorem sum_reads (part : Reads (term inner) (Derives n .term) extendsTerm) :
    Reads (sum inner) (Derives n .sum) extendsSum := by
  apply leftAssoc_reads sum_leftRecursive part
  intro t announces
  obtain ⟨join, announced⟩ := Option.ne_none_iff_exists'.1 announces
  obtain ⟨s, op, known, rfl, -⟩ := sumOp?_eq_some.1 announced
  simp only [sumOps, List.mem_cons, Prod.mk.injEq, List.not_mem_nil, or_false] at known
  rcases known with ⟨rfl, rfl⟩ | ⟨rfl, rfl⟩ <;> simp [extendsTerm, extendsUnary, termOp?]

theorem compare_apart (t : Token) (announces : linkOp? t ≠ none) : ¬ extendsSum t := by
  have : compareOp? t ≠ none := by simpa [linkOp?] using announces
  obtain ⟨op, announced⟩ := Option.ne_none_iff_exists'.1 this
  obtain ⟨s, known, rfl⟩ := compareOp?_eq_some.1 announced
  simp only [compareOps, List.mem_cons, Prod.mk.injEq, List.not_mem_nil, or_false] at known
  rcases known with ⟨rfl, -⟩ | ⟨rfl, -⟩ | ⟨rfl, -⟩ | ⟨rfl, -⟩ | ⟨rfl, -⟩ | ⟨rfl, -⟩ <;>
    simp [extendsSum, extendsTerm, extendsUnary, termOp?, sumOp?]

/-! The parser collects the links of a comparison back to front. -/

theorem links_of_chained {acc r : List (CompareOp × Expr)} {us : List Token}
    (chained : Chained (Derives n .sum) linkOp? acc us r) :
    ∃ links, Links n us links ∧ r = links.reverse ++ acc := by
  induction chained with
  | nil => exact ⟨[], .nil, rfl⟩
  | @cons acc t join us e vs r announced right _ ih =>
    obtain ⟨op, compares, rfl⟩ := Option.map_eq_some_iff.1 announced
    obtain ⟨s, known, rfl⟩ := compareOp?_eq_some.1 compares
    obtain ⟨links, rest, rfl⟩ := ih
    exact ⟨(op, e) :: links, .cons known right rest, by simp⟩

theorem chained_of_links {us : List Token} {links : List (CompareOp × Expr)} :
    Links n us links →
    ∀ acc, Chained (Derives n .sum) linkOp? acc us (links.reverse ++ acc)
  | .nil, _ => .nil
  | @Links.cons _ ts us e links s op known right rest, acc => by
    have announced : linkOp? (.symbol s) = some fun links e => (op, e) :: links := by
      simp [linkOp?, compareOp?_eq_some.2 ⟨s, known, rfl⟩]
    have chained := chained_of_links rest ((op, e) :: acc)
    simp only [List.reverse_cons, List.append_assoc, List.singleton_append]
    exact .cons announced right chained

theorem compare_iff {ts : List Token} {e : Expr} :
    Derives n .compare ts e ↔ ∃ us a vs links, Derives n .sum us a ∧ Links n vs links ∧
      ts = us ++ vs ∧ e = ofChain a links := by
  constructor
  · intro derives
    cases derives with
    | compareFirst first => exact ⟨ts, e, [], [], first, .nil, by simp, rfl⟩
    | compareChain first chain => exact ⟨_, _, _, _, first, chain, rfl, rfl⟩
  · rintro ⟨us, a, vs, links, first, chain, rfl, rfl⟩
    cases chain with
    | nil => simpa using .compareFirst first
    | cons known right rest => exact .compareChain first (.cons known right rest)

theorem comparison_reads (part : Reads (sum inner) (Derives n .sum) extendsSum) :
    Reads (comparison inner) (Derives n .compare) extendsCompare where
  sound {ts e rest} := by
    rintro ⟨h, taken⟩
    unfold comparison at taken
    split at taken
    · cases taken
    · rename_i first rest' h' taken'
      split at taken
      · cases taken
      · rename_i links rest'' h'' taken''
        cases taken
        obtain ⟨us, rfl, single⟩ := part.sound ⟨h', taken'⟩
        obtain ⟨vs, rfl, chained⟩ := chain_sound part taken''
        obtain ⟨links, chain, rfl⟩ := links_of_chained chained
        exact ⟨us ++ vs, by simp, compare_iff.2 ⟨us, first, vs, links, single, chain, rfl, by simp⟩⟩
  complete {ts e rest} := by
    intro phrased ends
    obtain ⟨us, a, vs, links, single, chain, rfl, rfl⟩ := compare_iff.1 phrased
    simp only [extendsCompare, not_or, Decidable.not_not] at ends
    have chained := chained_of_links chain []
    obtain ⟨h, taken⟩ := part.complete single (chained_follows compare_apart chained ends)
    obtain ⟨h', taken'⟩ := chain_complete part compare_apart chained ends
    rw [List.append_assoc]
    refine ⟨by omega, ?_⟩
    simp only [comparison, taken, taken', List.append_nil, List.reverse_reverse]

theorem negation_eq_comparison (ts : List Token) (notWord : ts.head? ≠ some (.name "not")) :
    negation inner ts = comparison inner ts := by
  unfold negation
  split
  · exact absurd rfl notWord
  · rfl

theorem negation_reads (plain : Reads (comparison inner) (Derives n .compare) extendsCompare)
    (below : Reads inner.not (Nested n .not) extendsCompare) :
    Reads (negation inner) (Derives n .not) extendsCompare where
  sound {ts e rest} := by
    rintro ⟨h, taken⟩
    unfold negation at taken
    split at taken
    · obtain ⟨a, inside, rfl⟩ := takes_operand.1 ⟨h, taken⟩
      obtain ⟨us, rfl, m, rfl, operand⟩ := below.sound inside
      exact ⟨.name "not" :: us, rfl, .notWord operand⟩
    · obtain ⟨us, parts, single⟩ := plain.sound ⟨h, taken⟩
      exact ⟨us, parts, .notPlain single⟩
  complete {us e rest} := by
    intro phrased ends
    cases phrased with
    | @notWord m us a operand =>
      have taken := below.complete ⟨m, rfl, operand⟩ ends
      exact takes_operand.2 ⟨a, taken, rfl⟩
    | notPlain single =>
      obtain ⟨t, us', rfl, starts⟩ := derives_starts single
      obtain ⟨h, taken⟩ := plain.complete single ends
      exact ⟨h, (negation_eq_comparison _ (by simpa [Rule.Starts] using starts)).trans taken⟩

theorem conjunction_reads (part : Reads (negation inner) (Derives n .not) extendsCompare) :
    Reads (conjunction inner) (Derives n .and) extendsAnd := by
  apply leftAssoc_reads and_leftRecursive part
  intro t announces
  obtain ⟨join, announced⟩ := Option.ne_none_iff_exists'.1 announces
  obtain ⟨rfl, -⟩ := andOp?_eq_some.1 announced
  simp [extendsCompare, extendsSum, extendsTerm, extendsUnary, termOp?, sumOp?, linkOp?, compareOp?]

theorem disjunction_reads (part : Reads (conjunction inner) (Derives n .and) extendsAnd) :
    Reads (disjunction inner) (Derives n .or) extendsOr := by
  apply leftAssoc_reads or_leftRecursive part
  intro t announces
  obtain ⟨join, announced⟩ := Option.ne_none_iff_exists'.1 announces
  obtain ⟨rfl, -⟩ := orOp?_eq_some.1 announced
  simp [extendsAnd, extendsCompare, extendsSum, extendsTerm, extendsUnary, termOp?, sumOp?, linkOp?,
    compareOp?, andOp?]

/-! ### The tower of levels -/

/-- The three rules that nesting leads back to, each read down to `phrase`. -/
structure Level.Reads (l : Level) (phrase : Rule → List Token → Expr → Prop) : Prop where
  or : Grammar.Reads l.or (phrase .or) extendsOr
  not : Grammar.Reads l.not (phrase .not) extendsCompare
  unary : Grammar.Reads l.unary (phrase .unary) extendsUnary

theorem step_reads (below : inner.Reads (Nested n)) : (level.step inner).Reads (Derives n) := by
  have atoms := atom_reads below.or
  have powers := power_reads atoms below.unary
  have signed := unary_reads powers below.unary
  have compared := comparison_reads (sum_reads (term_reads signed))
  have negated := negation_reads compared below.not
  exact ⟨disjunction_reads (conjunction_reads negated), negated, signed⟩

theorem fail_reads {rule : Rule} {goesOn : Token → Prop} {fault : ExprError} :
    Reads (fun _ => .error fault) (Nested 0 rule) goesOn where
  sound := by
    rintro ts e rest ⟨h, taken⟩
    cases taken
  complete := by
    rintro us e rest ⟨m, none, -⟩
    cases none

theorem nested_succ : Nested (n + 1) = Derives n := by
  funext rule ts e
  simp [Nested]

theorem level_reads (n : Nat) : (level n).Reads (Derives n) := by
  induction n with
  | zero => exact step_reads ⟨fail_reads, fail_reads, fail_reads⟩
  | succ n ih => exact step_reads (nested_succ ▸ ih)

/-! ### Whole token lists -/

theorem ofTokens_eq_ok {ts : List Token} {e : Expr} :
    Expr.ofTokens ts = .ok e ↔ (level maxNesting).or.Takes ts e [] := by
  unfold Expr.ofTokens
  constructor
  · intro parsed
    split at parsed
    · cases parsed
    · rename_i h taken
      cases parsed
      exact ⟨h, taken⟩
    · cases parsed
  · rintro ⟨h, taken⟩
    rw [taken]

theorem ofText_eq_ok {text : List Char} {e : Expr} :
    Expr.ofText text = .ok e ↔
      ∃ ts, Token.scan text = .ok ts ∧ Derives maxNesting .or ts e := by
  have reads := (level_reads maxNesting).or
  unfold Expr.ofText
  constructor
  · intro parsed
    split at parsed
    · cases parsed
    · cases parsed
    · rename_i ts _ scanned
      exact ⟨ts, scanned, reads.takes_all.1 (ofTokens_eq_ok.1 parsed)⟩
  · rintro ⟨ts, scanned, derives⟩
    obtain ⟨t, ts, rfl, -⟩ := derives_starts derives
    simp only [scanned]
    exact ofTokens_eq_ok.2 (reads.takes_all.2 derives)

/-- A derivation of any depth has the one tree that a deep enough level takes. -/
theorem derives_unique {m : Nat} {ts : List Token} {e e' : Expr} (derives : Derives n .or ts e)
    (derives' : Derives m .or ts e') : e = e' := by
  have reads := (level_reads (max n m)).or
  have taken := reads.takes_all.2 (derives_mono (Nat.le_max_left n m) derives)
  have taken' := reads.takes_all.2 (derives_mono (Nat.le_max_right n m) derives')
  exact (takes_unique taken taken').1

/-- The expression parser accepts exactly what the grammar derives within `maxNesting` levels, with
the tree of the derivation; and no token list has two trees, at whatever depth. -/
theorem ofTokens_eq_ok_iff_derives (ts : List Token) (e : Expr) :
    (Expr.ofTokens ts = .ok e ↔ Derives maxNesting .or ts e) ∧
      {e | ∃ n, Derives n .or ts e}.Subsingleton := by
  constructor
  · rw [ofTokens_eq_ok]
    exact (level_reads maxNesting).or.takes_all
  · rintro e ⟨n, derives⟩ e' ⟨m, derives'⟩
    exact derives_unique derives derives'

end RobotScript.Grammar
