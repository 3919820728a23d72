import RobotScript.Proofs.Expr.Lexemes
import RobotScript.Proofs.Expr.Reading

/-!
# Heights of expressions

An evaluation recurses as deep as its tree is high. Nesting is bounded, and with it the number of
steps down a tree that do not lead into a left operand. The steps that do are as many as operators
of one rule stand in a row, and no bound holds for these but the length of the text.
-/

namespace RobotScript

namespace Expr

mutual

/-- The heaviest path from the root to a leaf, if a step into a left operand weighs `left` and any
other step `other`. -/
def weight (left other : Nat) : Expr → Nat
  | .literal _ | .variable _ | .sensor _ => 0
  | .unary _ e => e.weight left other + other
  | .binary _ a b | .and a b | .or a b =>
    max (a.weight left other + left) (b.weight left other + other)
  | .compare first links =>
    max (first.weight left other) (linksWeight left other links) + other

def linksWeight (left other : Nat) : List (CompareOp × Expr) → Nat
  | [] => 0
  | (_, e) :: links => max (e.weight left other) (linksWeight left other links)

end

def height (e : Expr) : Nat := e.weight 1 1

/-- The most steps into left operands on one path. -/
def lefts (e : Expr) : Nat := e.weight 1 0

/-- The most steps on one path that do not lead into a left operand. -/
def turns (e : Expr) : Nat := e.weight 0 1

section Weight

variable {l l' o o' : Nat}

mutual

theorem weight_mono (left : l ≤ l') (other : o ≤ o') : ∀ e : Expr, e.weight l o ≤ e.weight l' o'
  | .literal _ | .variable _ | .sensor _ => by simp [weight]
  | .unary _ e => by
    have := weight_mono left other e
    simp only [weight]
    omega
  | .binary _ a b | .and a b | .or a b => by
    have := weight_mono left other a
    have := weight_mono left other b
    simp only [weight]
    omega
  | .compare first links => by
    have := weight_mono left other first
    have := linksWeight_mono left other links
    simp only [weight]
    omega

theorem linksWeight_mono (left : l ≤ l') (other : o ≤ o') :
    ∀ links : List (CompareOp × Expr), linksWeight l o links ≤ linksWeight l' o' links
  | [] => by simp [linksWeight]
  | (_, e) :: links => by
    have := weight_mono left other e
    have := linksWeight_mono left other links
    simp only [linksWeight]
    omega

end

mutual

theorem weight_add_le : ∀ e : Expr, e.weight (l + l') (o + o') ≤ e.weight l o + e.weight l' o'
  | .literal _ | .variable _ | .sensor _ => by simp [weight]
  | .unary _ e => by
    have := weight_add_le e
    simp only [weight]
    omega
  | .binary _ a b | .and a b | .or a b => by
    have := weight_add_le a
    have := weight_add_le b
    simp only [weight]
    omega
  | .compare first links => by
    have := weight_add_le first
    have := linksWeight_add_le links
    simp only [weight]
    omega

theorem linksWeight_add_le : ∀ links : List (CompareOp × Expr),
    linksWeight (l + l') (o + o') links ≤ linksWeight l o links + linksWeight l' o' links
  | [] => by simp [linksWeight]
  | (_, e) :: links => by
    have := weight_add_le e
    have := linksWeight_add_le links
    simp only [linksWeight]
    omega

end

end Weight

theorem lefts_le_height (e : Expr) : e.lefts ≤ e.height :=
  weight_mono (by simp) (by simp) e

theorem height_le_lefts_add_turns (e : Expr) : e.height ≤ e.lefts + e.turns :=
  @weight_add_le 1 0 0 1 e

end Expr

namespace Grammar

/-- The turns that the rules leave room for on one level, from `rule` down to an atom. -/
def Rule.room : Rule → Nat
  | .or => 5
  | .and => 4
  | .not | .compare => 3
  | .sum => 2
  | .term => 1
  | .unary | .power | .atom => 0

mutual

theorem turns_le_of_derives {n : Nat} {rule : Rule} {ts : List Token} {e : Expr} :
    Derives n rule ts e → e.turns ≤ 5 * n + rule.room
  | .orFirst part | .andFirst part | .notPlain part | .compareFirst part | .sumFirst part
  | .termFirst part | .unaryPlain part | .powerBase part | .bracket part => by
    -- a bracket gives the room of one level for going through all the rules again
    have := turns_le_of_derives part
    simp only [Rule.room] at this ⊢
    omega
  | .orNext left right | .andNext left right | .sumNext _ left right | .termNext _ left right
  | .powerExponent left right => by
    have := turns_le_of_derives left
    have := turns_le_of_derives right
    simp only [Expr.turns, Expr.weight, Rule.room] at *
    omega
  | .notWord operand | .unarySign _ operand => by
    have := turns_le_of_derives operand
    simp only [Expr.turns, Expr.weight, Rule.room] at *
    omega
  | .compareChain first chain => by
    have := turns_le_of_derives first
    have := turns_le_of_links chain
    simp only [Expr.turns, Expr.weight, Rule.room] at *
    omega
  | .int | .float | .text | .sensor | .trueWord _ | .falseWord _ | .freeName _ => by
    simp [Expr.turns, Expr.weight]

theorem turns_le_of_links {n : Nat} {ts : List Token} {links : List (CompareOp × Expr)} :
    Links n ts links → Expr.linksWeight 0 1 links ≤ 5 * n + Rule.sum.room
  | .nil => by simp [Expr.linksWeight]
  | .cons _ right rest => by
    have := turns_le_of_derives right
    have := turns_le_of_links rest
    simp only [Expr.turns, Expr.linksWeight] at *
    omega

end

mutual

theorem height_lt_of_derives {n : Nat} {rule : Rule} {ts : List Token} {e : Expr} :
    Derives n rule ts e → e.height < ts.length
  | .orFirst part | .andFirst part | .notPlain part | .compareFirst part | .sumFirst part
  | .termFirst part | .unaryPlain part | .powerBase part => height_lt_of_derives part
  | .bracket part => by
    have := height_lt_of_derives part
    simp only [List.length_cons, List.length_append]
    omega
  | .orNext left right | .andNext left right | .sumNext _ left right | .termNext _ left right
  | .powerExponent left right => by
    have := height_lt_of_derives left
    have := height_lt_of_derives right
    simp only [Expr.height, Expr.weight, List.length_append, List.length_cons] at *
    omega
  | .notWord operand | .unarySign _ operand => by
    have := height_lt_of_derives operand
    simp only [Expr.height, Expr.weight, List.length_cons] at *
    omega
  | .compareChain first chain => by
    have := height_lt_of_derives first
    obtain ⟨_, _⟩ := height_le_of_links chain
    simp only [Expr.height, Expr.weight, List.length_append, List.length_cons] at *
    omega
  | .int | .float | .text | .sensor | .trueWord _ | .falseWord _ | .freeName _ => by
    simp [Expr.height, Expr.weight]

theorem height_le_of_links {n : Nat} {ts : List Token} {links : List (CompareOp × Expr)} :
    Links n ts links → Expr.linksWeight 1 1 links ≤ ts.length - 1 ∧ links.length ≤ ts.length
  | .nil => by simp [Expr.linksWeight]
  | .cons _ right rest => by
    have := height_lt_of_derives right
    obtain ⟨_, _⟩ := height_le_of_links rest
    simp only [Expr.height, Expr.linksWeight, List.length_append, List.length_cons] at *
    omega

end

end Grammar

/-! ### Whole texts -/

open Grammar

theorem Lexed.length_le {cs : List Char} {ts : List Token} (lexed : Lexed cs ts) :
    ts.length ≤ cs.length := by
  induction lexed with
  | blanks => simp
  | lexeme _ lexeme _ ih =>
    obtain ⟨c, cs, rfl, -⟩ := lexeme.exists_cons
    simp only [List.length_append, List.length_cons]
    omega

/-! ### Sums of any length -/

/-- The tree of `1+1+...+1` with `k` signs. -/
def onesSum : Nat → Expr
  | 0 => .literal (.int 1)
  | k + 1 => .binary .add (onesSum k) (.literal (.int 1))

theorem height_onesSum (k : Nat) : (onesSum k).height = k := by
  induction k with
  | zero => rfl
  | succ k ih =>
    simp only [Expr.height] at ih
    simp [Expr.height, onesSum, Expr.weight, ih]

theorem derives_onesSum (n k : Nat) :
    Derives n .sum (.int 1 :: (List.replicate k [.symbol .plus, .int 1]).flatten) (onesSum k) := by
  induction k with
  | zero => exact .sumFirst (.termFirst (.unaryPlain (.powerBase .int)))
  | succ k ih =>
    have right : Derives n .term [.int 1] (.literal (.int 1)) :=
      .termFirst (.unaryPlain (.powerBase .int))
    have longer := @Derives.sumNext n _ _ _ _ .plus .add (by simp [sumOps]) ih right
    simpa [onesSum, List.replicate_succ'] using longer

theorem lexed_ones (k : Nat) :
    Lexed ('1' :: (List.replicate k ['+', '1']).flatten)
      (.int 1 :: (List.replicate k [.symbol .plus, .int 1]).flatten) := by
  have one {rest : List Char} (ends : ∀ c ∈ rest.head?, isNumberChar c = false) :
      Lexeme rest ['1'] (.int 1) :=
    .number (.digit rfl) ⟨by simp [isNumberChar], ends⟩ (.int (by simp) (by decide))
  induction k with
  | zero => exact @Lexed.lexeme [] ['1'] [] _ _ (by simp) (one (by simp)) (.blanks (by simp))
  | succ k ih =>
    have plus : Lexeme ('1' :: (List.replicate k ['+', '1']).flatten) ['+'] (.symbol .plus) :=
      .symbol (s := .plus) (by decide) (by decide) (by simp [operators, Symbol.text])
    have later := @Lexed.lexeme [] ['+'] _ _ _ (by simp) plus ih
    exact @Lexed.lexeme [] ['1'] _ _ _ (by simp) (one (by simp [isNumberChar])) later

theorem ofText_ones (k : Nat) :
    Expr.ofText ('1' :: (List.replicate k ['+', '1']).flatten) = .ok (onesSum k) :=
  ofText_eq_ok.2 ⟨_, scan_of_lexed (lexed_ones k),
    .orFirst (.andFirst (.notPlain (.compareFirst (derives_onesSum maxNesting k))))⟩

/-! ### Bounds -/

/-- The nesting bound counts for every step down a tree but those into left operands: a path has at
most five others on each level. A tree is high exactly if it has many steps into left operands on
one path, and these are bounded by the length of the text alone. -/
theorem height_le_of_ofText (text : List Char) (e : Expr) (parsed : Expr.ofText text = .ok e) :
    e.turns ≤ 5 * (maxNesting + 1) ∧ e.lefts ≤ e.height ∧
      e.height ≤ e.lefts + 5 * (maxNesting + 1) ∧ e.height < text.length := by
  obtain ⟨ts, scanned, derives⟩ := ofText_eq_ok.1 parsed
  have turns : e.turns ≤ 5 * (maxNesting + 1) := turns_le_of_derives derives
  refine ⟨turns, e.lefts_le_height, ?_, ?_⟩
  · exact e.height_le_lefts_add_turns.trans (Nat.add_le_add_left turns _)
  · exact (height_lt_of_derives derives).trans_le (lexed_of_scan scanned).length_le

theorem height_le_of_ofText_ones :
    Expr.ofText ['1', '+', '1', '+', '1'] = .ok (onesSum 2) ∧
    (onesSum 2).turns ≤ 5 * (maxNesting + 1) ∧ (onesSum 2).lefts ≤ (onesSum 2).height ∧
    (onesSum 2).height ≤ (onesSum 2).lefts + 5 * (maxNesting + 1) ∧ (onesSum 2).height < 5 :=
  ⟨ofText_ones 2, height_le_of_ofText _ _ (ofText_ones 2)⟩

/-- No one number bounds the heights of the trees of all texts. -/
theorem height_unbounded : ¬ ∃ bound, ∀ text e, Expr.ofText text = .ok e → e.height ≤ bound := by
  rintro ⟨bound, bounded⟩
  have small := bounded _ _ (ofText_ones (bound + 1))
  rw [height_onesSum] at small
  omega

end RobotScript
