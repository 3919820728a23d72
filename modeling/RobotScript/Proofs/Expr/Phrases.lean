import RobotScript.Expr.Parser

/-!
# Parsers and phrases

What it means that a parser reads the phrases of a grammar, and how the ways to build parsers keep
it. A parser is greedy, so it finds a phrase only where the next token does not go on with it.
-/

namespace RobotScript.Grammar

/-! ### What a parser reads -/

/-- `p` takes `e` off the front of `ts` and leaves `rest`. -/
def Parser.Takes (p : Parser) (ts : List Token) (e : Expr) (rest : List Token) : Prop :=
  ∃ h, p ts = .ok (e, ⟨rest, h⟩)

/-- `p` takes phrases and nothing else, and takes a phrase wherever no token follows that `goesOn`
with it. -/
structure Reads (p : Parser) (phrase : List Token → Expr → Prop) (goesOn : Token → Prop) :
    Prop where
  sound {ts e rest} : p.Takes ts e rest → ∃ us, ts = us ++ rest ∧ phrase us e
  complete {us e rest} : phrase us e → (∀ t ∈ rest.head?, ¬ goesOn t) →
    p.Takes (us ++ rest) e rest

theorem takes_unique {p : Parser} {ts rest rest' : List Token} {e e' : Expr}
    (h : p.Takes ts e rest) (h' : p.Takes ts e' rest') : e = e' ∧ rest = rest' := by
  obtain ⟨_, h⟩ := h
  obtain ⟨_, h'⟩ := h'
  rw [h] at h'
  simp only [Except.ok.injEq, Prod.mk.injEq, Subtype.mk.injEq] at h'
  exact h'

theorem Reads.takes_all {p : Parser} {phrase : List Token → Expr → Prop} {goesOn : Token → Prop}
    (reads : Reads p phrase goesOn) {ts : List Token} {e : Expr} :
    p.Takes ts e [] ↔ phrase ts e := by
  constructor
  · intro taken
    obtain ⟨us, rfl, phrased⟩ := reads.sound taken
    simpa using phrased
  · intro phrased
    have taken : p.Takes (ts ++ []) e [] := reads.complete phrased (by simp)
    simpa using taken

/-! ### Chains -/

section Chain

variable {β : Type} {operand : Parser} {join? : Token → Option (β → Expr → β)}
  {phrase : List Token → Expr → Prop} {goesOn : Token → Prop}

/-- Phrases after `acc`, each announced by a token that `join?` knows, joined from the left. -/
inductive Chained (phrase : List Token → Expr → Prop) (join? : Token → Option (β → Expr → β)) :
    β → List Token → β → Prop
  | nil {acc} : Chained phrase join? acc [] acc
  | cons {acc t join us e vs r} (announced : join? t = some join) (right : phrase us e)
    (rest : Chained phrase join? (join acc e) vs r) :
    Chained phrase join? acc (t :: (us ++ vs)) r

theorem chained_starts {acc r : β} {ts : List Token} (chained : Chained phrase join? acc ts r) :
    ∀ t ∈ ts.head?, join? t ≠ none := by
  cases chained with
  | nil => simp
  | cons announced => simp [announced]

/-- What stands after a phrase before a chain is the chain's first operator, or what ends it. -/
theorem chained_follows (apart : ∀ t, join? t ≠ none → ¬ goesOn t) {acc r : β}
    {us rest : List Token} (chained : Chained phrase join? acc us r)
    (ends : ∀ t ∈ rest.head?, ¬ goesOn t ∧ join? t = none) :
    ∀ t ∈ (us ++ rest).head?, ¬ goesOn t := by
  intro t next
  cases us with
  | nil => exact (ends t next).1
  | cons t' us => exact apart t (chained_starts chained t (by simpa using next))

theorem chained_snoc {acc r : β} {t : Token} {join : β → Expr → β} {ts us : List Token} {e : Expr}
    (chained : Chained phrase join? acc ts r) (announced : join? t = some join)
    (right : phrase us e) : Chained phrase join? acc (ts ++ t :: us) (join r e) := by
  induction chained with
  | @nil acc =>
    have last : Chained phrase join? acc (t :: (us ++ [])) (join acc e) :=
      .cons announced right .nil
    simpa using last
  | @cons acc t' join' us' e' vs r announced' right' _ ih =>
    rw [List.cons_append, List.append_assoc]
    exact .cons announced' right' ih

theorem chain_sound (reads : Reads operand phrase goesOn) {acc r : β} {ts rest : List Token}
    {h : rest.length ≤ ts.length}
    (taken : chain operand join? acc ts = .ok (r, ⟨rest, h⟩)) :
    ∃ us, ts = us ++ rest ∧ Chained phrase join? acc us r := by
  fun_induction chain operand join? acc ts with
  | case1 acc | case2 acc t ts unknown =>
    simp only [Except.ok.injEq, Prod.mk.injEq, Subtype.mk.injEq] at taken
    obtain ⟨rfl, rfl⟩ := taken
    exact ⟨[], rfl, .nil⟩
  | case3 | case4 => cases taken
  | case5 acc t ts join announced right rest' h' taken' r' rest'' h'' _ ih =>
    simp only [Except.ok.injEq, Prod.mk.injEq, Subtype.mk.injEq] at taken
    obtain ⟨rfl, rfl⟩ := taken
    obtain ⟨us, rfl, phrased⟩ := reads.sound ⟨h', taken'⟩
    obtain ⟨vs, rfl, chained⟩ := ih ‹_›
    exact ⟨t :: (us ++ vs), by simp, .cons announced phrased chained⟩

theorem chain_complete (reads : Reads operand phrase goesOn)
    (apart : ∀ t, join? t ≠ none → ¬ goesOn t) {acc r : β} {us rest : List Token}
    (chained : Chained phrase join? acc us r)
    (ends : ∀ t ∈ rest.head?, ¬ goesOn t ∧ join? t = none) :
    ∃ h, chain operand join? acc (us ++ rest) = .ok (r, ⟨rest, h⟩) := by
  induction chained with
  | nil =>
    rw [List.nil_append]
    refine ⟨Nat.le_refl _, ?_⟩
    cases rest with
    | nil => rw [chain]
    | cons t rest =>
      have unknown := (ends t (by simp)).2
      rw [chain]
      simp only [unknown]
  | @cons acc t join us e vs r announced right chained ih =>
    obtain ⟨h, taken⟩ := reads.complete right (chained_follows apart chained ends)
    obtain ⟨h', taken'⟩ := ih
    rw [List.cons_append, List.append_assoc]
    refine ⟨by simp only [List.length_cons]; omega, ?_⟩
    rw [chain]
    simp only [announced, taken, taken']

end Chain

/-! ### Left association -/

section LeftAssoc

variable {operand : Parser} {join? : Token → Option (Expr → Expr → Expr)}
  {part phrase : List Token → Expr → Prop} {goesOn : Token → Prop}

/-- `phrase` is one `part`, or a shorter `phrase` and one more `part` joined by an operator. -/
def LeftRecursive (part phrase : List Token → Expr → Prop)
    (join? : Token → Option (Expr → Expr → Expr)) : Prop :=
  ∀ ts e, phrase ts e ↔ part ts e ∨ ∃ us a t join vs b, phrase us a ∧ join? t = some join ∧
    part vs b ∧ ts = us ++ t :: vs ∧ e = join a b

/-- The parts of a left-recursive phrase are a first one and a chain. -/
theorem leftRecursive_iff (recursive : LeftRecursive part phrase join?) (ts : List Token)
    (e : Expr) :
    phrase ts e ↔ ∃ us a vs, part us a ∧ Chained part join? a vs e ∧ ts = us ++ vs := by
  constructor
  · intro phrased
    induction length : ts.length using Nat.strongRecOn generalizing ts e with
    | _ n ih =>
      rcases (recursive ts e).1 phrased with
        single | ⟨us, a, t, join, vs, b, left, announced, right, rfl, rfl⟩
      · exact ⟨ts, e, [], single, .nil, by simp⟩
      · have shorter : us.length < n := by
          simp only [List.length_append, List.length_cons] at length
          omega
        obtain ⟨us, first, ws, single, chained, rfl⟩ := ih us.length shorter us a left rfl
        exact ⟨us, first, ws ++ t :: vs, single, chained_snoc chained announced right, by simp⟩
  · rintro ⟨us, a, vs, single, chained, rfl⟩
    have left := (recursive us a).2 (.inl single)
    clear single
    induction chained generalizing us with
    | nil => simpa using left
    | @cons acc t join us' e' vs' r announced right _ ih =>
      have longer := (recursive (us ++ t :: us') (join acc e')).2
        (.inr ⟨us, acc, t, join, us', e', left, announced, right, rfl, rfl⟩)
      simpa using ih _ longer

theorem leftAssoc_reads (recursive : LeftRecursive part phrase join?)
    (reads : Reads operand part goesOn) (apart : ∀ t, join? t ≠ none → ¬ goesOn t) :
    Reads (leftAssoc operand join?) phrase (fun t => goesOn t ∨ join? t ≠ none) where
  sound {ts e rest} := by
    rintro ⟨h, taken⟩
    unfold leftAssoc at taken
    split at taken
    · cases taken
    · rename_i first rest' h' taken'
      split at taken
      · cases taken
      · rename_i e' rest'' h'' taken''
        simp only [Except.ok.injEq, Prod.mk.injEq, Subtype.mk.injEq] at taken
        obtain ⟨rfl, rfl⟩ := taken
        obtain ⟨us, rfl, single⟩ := reads.sound ⟨h', taken'⟩
        obtain ⟨vs, rfl, chained⟩ := chain_sound reads taken''
        exact ⟨us ++ vs, by simp,
          (leftRecursive_iff recursive _ _).2 ⟨us, first, vs, single, chained, rfl⟩⟩
  complete {ts e rest} := by
    intro phrased ends
    obtain ⟨us, a, vs, single, chained, rfl⟩ := (leftRecursive_iff recursive _ _).1 phrased
    simp only [not_or, Decidable.not_not] at ends
    obtain ⟨h, taken⟩ := reads.complete single (chained_follows apart chained ends)
    obtain ⟨h', taken'⟩ := chain_complete reads apart chained ends
    rw [List.append_assoc]
    refine ⟨by omega, ?_⟩
    simp only [leftAssoc, taken, taken']

end LeftAssoc

/-! ### Operands -/

theorem takes_operand {wrap : Expr → Expr} {p : Parser} {t : Token} {ts rest : List Token}
    {e : Expr} :
    (∃ h, operand wrap p t ts = .ok (e, ⟨rest, h⟩)) ↔ ∃ a, p.Takes ts a rest ∧ e = wrap a := by
  unfold operand
  constructor
  · rintro ⟨h, taken⟩
    split at taken
    · cases taken
    · rename_i a rest' h' taken'
      cases taken
      exact ⟨a, ⟨h', taken'⟩, rfl⟩
  · rintro ⟨a, ⟨h, taken⟩, rfl⟩
    simp only [taken]
    exact ⟨by simp; omega, trivial⟩

end RobotScript.Grammar
