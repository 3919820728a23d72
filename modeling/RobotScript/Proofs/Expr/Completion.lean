import RobotScript.Proofs.Expr.Extension
import RobotScript.Proofs.Expr.Reading

/-!
# Incomplete and wrong expressions

Each rule of the grammar is a steady reading, as parsers go from left to right and look one token
ahead. A list that ends too early lacks an operand, or the ends of its open brackets; neither is
nested deeper than what has been read, so the limit of nesting is no obstacle to completing it.
-/

namespace RobotScript.Grammar

variable {α β : Type}

/-- The answer of a parser without the proof that its rest is shorter. -/
def bare {P : List Token → Prop} (answer : Except ExprError (α × { rest // P rest })) :
    Except ExprError (α × List Token) :=
  answer.map fun (a, rest) => (a, rest.val)

def Parser.reading (p : Parser) : Reading Expr := fun ts => bare (p ts)

theorem length_of_reading {p : Parser} {ts rest : List Token} {e : Expr}
    (read : p.reading ts = .ok (e, rest)) : rest.length < ts.length := by
  unfold Parser.reading at read
  cases answer : p ts with
  | error fault =>
    rw [answer] at read
    cases read
  | ok r =>
    obtain ⟨e', rest', shorter⟩ := r
    rw [answer] at read
    cases read
    exact shorter

/-! ### Chains -/

section Chain

variable {operand : Parser} {join? : Token → Option (β → Expr → β)} {goesOn : Token → Prop}

def links (operand : Parser) (join? : Token → Option (β → Expr → β)) (acc : β) : Reading β :=
  fun ts => bare (chain operand join? acc ts)

theorem links_nil (acc : β) : links operand join? acc [] = .ok (acc, []) := by
  simp [links, chain, bare, Except.map]

theorem links_unknown {t : Token} (unknown : join? t = none) (acc : β) (ts : List Token) :
    links operand join? acc (t :: ts) = .ok (acc, t :: ts) := by
  rw [links, chain]
  simp [unknown, bare, Except.map]

theorem links_known {t : Token} {join : β → Expr → β} (known : join? t = some join) (acc : β)
    (ts : List Token) : links operand join? acc (t :: ts) =
      (operand.reading.andThen fun right => links operand join? (join acc right)) ts := by
  rw [links, chain]
  simp only [known, Reading.andThen, Parser.reading]
  cases operand ts with
  | error fault => rfl
  | ok r =>
    obtain ⟨right, rest, shorter⟩ := r
    simp only [bare, Except.map, links]
    cases chain operand join? (join acc right) rest <;> rfl

theorem links_apart (acc : β) {ts : List Token}
    (apart : Apart (fun t => goesOn t ∨ join? t ≠ none) ts) :
    links operand join? acc ts = .ok (acc, ts) := by
  cases ts with
  | nil => exact links_nil acc
  | cons t ts =>
    have unknown : join? t = none := by
      by_contra known
      exact apart t rfl (.inr known)
    exact links_unknown unknown acc ts

theorem links_steady (steady : ∀ ts, Steady operand.reading goesOn ts) (acc : β)
    (ts : List Token) :
    Steady (links operand join? acc) (fun t => goesOn t ∨ join? t ≠ none) ts := by
  induction length : ts.length using Nat.strongRecOn generalizing ts acc with
  | _ n ih =>
    cases ts with
    | nil => exact .taken (links_nil acc) fun us apart => links_apart acc (apart rfl)
    | cons t ts =>
      cases known : join? t with
      | none => exact .taken (links_unknown known acc ts) fun us _ => links_unknown known acc _
      | some join =>
        rw [List.length_cons] at length
        refine Steady.cons ((steady ts).andThen ?_ ?_) (links_known known acc)
        · -- Each operand takes a token, so the induction is on the length of what is left.
          intro right rest read
          have shorter := length_of_reading read
          exact ih rest.length (by omega) (join acc right) rest rfl
        · exact fun right => .optional (fun _ => links_apart _) fun _ => .inl

theorem leftAssoc_reading (operand : Parser) (join? : Token → Option (Expr → Expr → Expr)) :
    (leftAssoc operand join?).reading = operand.reading.andThen (links operand join?) := by
  funext ts
  simp only [Parser.reading, leftAssoc, Reading.andThen]
  cases operand ts with
  | error fault => rfl
  | ok r =>
    obtain ⟨first, rest, shorter⟩ := r
    simp only [bare, Except.map, links]
    cases chain operand join? first rest <;> rfl

theorem leftAssoc_steady {join? : Token → Option (Expr → Expr → Expr)}
    (steady : ∀ ts, Steady operand.reading goesOn ts) (ts : List Token) :
    Steady (leftAssoc operand join?).reading (fun t => goesOn t ∨ join? t ≠ none) ts := by
  rw [leftAssoc_reading]
  exact (steady ts).andThen (fun _ => links_steady steady _ _) fun first =>
    .optional (fun _ => links_apart first) fun _ => .inl

end Chain

/-! ### Operands -/

section Operands

variable {inner : Level} {ts : List Token}

def close (e : Expr) : Reading Expr
  | [] => .error .unexpectedEnd
  | .symbol .closeParen :: ts => .ok (e, ts)
  | t :: _ => .error (.unexpectedToken t)

theorem close_completes (e : Expr) :
    Completes (close e) (fun _ => False) [] [.symbol .closeParen] e :=
  ⟨by simp [IsFiller], fun _ => rfl⟩

theorem close_steady (e : Expr) (ts : List Token) : Steady (close e) (fun _ => False) ts := by
  cases ts with
  | nil => exact .starved _ e rfl (by simp) (close_completes e)
  | cons t ts =>
    by_cases closing : t = .symbol .closeParen
    · subst closing
      exact (steady_pure e).cons fun _ => rfl
    · have refused (us : List Token) : close e (t :: us) = .error (.unexpectedToken t) := by
        simp [close]
      exact .refused (refused ts) trivial fun us => refused (ts ++ us)

theorem atom_bracket (inner : Level) (ts : List Token) :
    (atom inner).reading (.symbol .openParen :: ts) = (inner.or.reading.andThen close) ts := by
  simp only [Parser.reading, atom, Reading.andThen]
  cases inner.or ts with
  | error fault => rfl
  | ok r =>
    obtain ⟨e, rest, shorter⟩ := r
    cases rest with
    | nil => rfl
    | cons t rest =>
      by_cases closing : t = .symbol .closeParen
      · subst closing
        rfl
      · simp [bare, Except.map, close]

theorem ofName_error {name : String} {fault : ExprError} (refused : ofName name = .error fault) :
    fault = .unexpectedToken (.name name) := by
  unfold ofName at refused
  split at refused
  · cases refused
  split at refused
  · cases refused
  split at refused
  · cases refused
    rfl
  · cases refused

/-- Any token but a bracket is an operand of its own or none at all. -/
theorem atom_single (inner : Level) {t : Token} (single : t ≠ .symbol .openParen) :
    (∃ e, ∀ ts, (atom inner).reading (t :: ts) = .ok (e, ts)) ∨
      ∀ ts, (atom inner).reading (t :: ts) = .error (.unexpectedToken t) := by
  cases t with
  | int i => exact .inl ⟨.literal (.int i), fun _ => rfl⟩
  | float x => exact .inl ⟨.literal (.float x), fun _ => rfl⟩
  | text s => exact .inl ⟨.literal (.text s), fun _ => rfl⟩
  | sensor s => exact .inl ⟨.sensor s, fun _ => rfl⟩
  | name name =>
    cases known : ofName name with
    | ok e =>
      refine .inl ⟨e, fun ts => ?_⟩
      simp only [Parser.reading, atom, known]
      rfl
    | error fault =>
      obtain rfl := ofName_error known
      refine .inr fun ts => ?_
      simp only [Parser.reading, atom, known]
      rfl
  | symbol s =>
    cases s with
    | openParen => exact absurd rfl single
    | _ => exact .inr fun _ => rfl

theorem atom_steady (below : ∀ ts, Steady inner.or.reading extendsOr ts) (ts : List Token) :
    Steady (atom inner).reading (fun _ => False) ts := by
  cases ts with
  | nil =>
    have completes :
        Completes (atom inner).reading (fun _ => False) [] [.int 0] (.literal (.int 0)) :=
      ⟨by simp [IsFiller], fun _ => rfl⟩
    exact .starved _ _ rfl (by simp) completes
  | cons t ts =>
    by_cases bracket : t = .symbol .openParen
    · subst bracket
      have apart : ¬ extendsOr (.symbol .closeParen) := by
        simp [extendsOr, extendsAnd, extendsCompare, extendsSum, extendsTerm, extendsUnary,
          termOp?, sumOp?, linkOp?, compareOp?, andOp?, orOp?]
      refine Steady.cons ((below ts).andThen ?_ ?_) (atom_bracket inner)
      · exact fun _ => close_steady _ _
      · exact fun e => .required rfl apart (close_completes e)
    · obtain ⟨e, read⟩ | refused := atom_single inner bracket
      · exact .taken (read ts) fun us _ => read (ts ++ us)
      · exact .refused (refused ts) trivial fun us => refused (ts ++ us)

/-- The exponent of `base`, if one follows. -/
def exponent (inner : Level) (base : Expr) : Reading Expr
  | .symbol .power :: ts => inner.unary.reading.map (.binary .pow base) ts
  | ts => .ok (base, ts)

theorem exponent_apart (base : Expr) (apart : Apart extendsUnary ts) :
    exponent inner base ts = .ok (base, ts) := by
  unfold exponent
  split
  · exact absurd rfl (apart (.symbol .power) rfl)
  · rfl

theorem power_reading (inner : Level) :
    (power inner).reading = (atom inner).reading.andThen (exponent inner) := by
  funext ts
  simp only [Parser.reading, power, Reading.andThen]
  cases atom inner ts with
  | error fault => rfl
  | ok r =>
    obtain ⟨base, rest, shorter⟩ := r
    by_cases raised : rest.head? = some (.symbol .power)
    · obtain ⟨rest, rfl⟩ := List.head?_eq_some_iff.1 raised
      simp only [bare, Except.map, exponent, Reading.map, Reading.andThen, Parser.reading]
      cases inner.unary rest <;> rfl
    · have apart : Apart extendsUnary rest := by
        rintro t first rfl
        exact raised first
      refine Eq.trans ?_ (exponent_apart base apart).symm
      split
      · rename_i answer
        cases answer
      · rename_i answer
        cases answer
        exact absurd rfl raised
      · rename_i answer
        cases answer
        rfl

theorem exponent_steady (below : ∀ ts, Steady inner.unary.reading extendsUnary ts) (base : Expr)
    (ts : List Token) : Steady (exponent inner base) extendsUnary ts := by
  by_cases raised : ts.head? = some (.symbol .power)
  · obtain ⟨ts, rfl⟩ := List.head?_eq_some_iff.1 raised
    exact ((below ts).map _).cons fun _ => rfl
  · have plain : Apart extendsUnary ts := by
      rintro t first rfl
      exact raised first
    refine .taken (exponent_apart base plain) fun us apart => exponent_apart base ?_
    cases ts with
    | nil => exact apart rfl
    | cons t ts => exact plain

theorem power_steady (base : ∀ ts, Steady (atom inner).reading (fun _ => False) ts)
    (below : ∀ ts, Steady inner.unary.reading extendsUnary ts) (ts : List Token) :
    Steady (power inner).reading extendsUnary ts := by
  rw [power_reading]
  exact (base ts).andThen (fun _ => exponent_steady below _ _) fun e =>
    .optional (fun _ => exponent_apart e) fun _ => False.elim

end Operands

/-! ### Operators -/

section Operators

variable {inner : Level}

theorem operand_reading (wrap : Expr → Expr) (p : Parser) (t : Token) (ts : List Token) :
    bare (operand wrap p t ts) = p.reading.map wrap ts := by
  simp only [operand, Reading.map, Reading.andThen, Parser.reading]
  cases p ts <;> rfl

theorem unary_steady (plain : ∀ ts, Steady (power inner).reading extendsUnary ts)
    (below : ∀ ts, Steady inner.unary.reading extendsUnary ts) (ts : List Token) :
    Steady (unary inner).reading extendsUnary ts := by
  by_cases minus : ts.head? = some (.symbol .minus)
  · obtain ⟨ts, rfl⟩ := List.head?_eq_some_iff.1 minus
    exact ((below ts).map _).cons fun _ => operand_reading _ _ _ _
  by_cases plus : ts.head? = some (.symbol .plus)
  · obtain ⟨ts, rfl⟩ := List.head?_eq_some_iff.1 plus
    exact ((below ts).map _).cons fun _ => operand_reading _ _ _ _
  · apply (plain ts).congr fun t => t ≠ .symbol .minus ∧ t ≠ .symbol .plus
    · intro us starts
      have notMinus : us.head? ≠ some (.symbol .minus) := fun first => (starts _ first).1 rfl
      have notPlus : us.head? ≠ some (.symbol .plus) := fun first => (starts _ first).2 rfl
      simp only [Parser.reading, unary_eq_power us notMinus notPlus]
    · rintro t (rfl | rfl) <;> simp
    · rfl
    · intro t first
      constructor
      · rintro rfl
        exact minus first
      · rintro rfl
        exact plus first

theorem comparison_reading (inner : Level) : (comparison inner).reading =
    (sum inner).reading.andThen fun first =>
      (links (sum inner) linkOp? []).map fun chain => ofChain first chain.reverse := by
  funext ts
  simp only [Parser.reading, comparison, Reading.andThen]
  cases sum inner ts with
  | error fault => rfl
  | ok r =>
    obtain ⟨first, rest, shorter⟩ := r
    simp only [bare, Except.map, Reading.map, Reading.andThen, links]
    cases chain (sum inner) linkOp? [] rest <;> rfl

theorem comparison_steady (part : ∀ ts, Steady (sum inner).reading extendsSum ts)
    (ts : List Token) : Steady (comparison inner).reading extendsCompare ts := by
  rw [comparison_reading]
  refine (part ts).andThen (fun _ => (links_steady part [] _).map _) fun first => ?_
  exact .optional (fun _ apart => Reading.andThen_ok (links_apart [] apart) _) fun _ => .inl

theorem negation_steady (plain : ∀ ts, Steady (comparison inner).reading extendsCompare ts)
    (below : ∀ ts, Steady inner.not.reading extendsCompare ts) (ts : List Token) :
    Steady (negation inner).reading extendsCompare ts := by
  by_cases word : ts.head? = some (.name "not")
  · obtain ⟨ts, rfl⟩ := List.head?_eq_some_iff.1 word
    exact ((below ts).map _).cons fun _ => operand_reading _ _ _ _
  · apply (plain ts).congr fun t => t ≠ .name "not"
    · intro us starts
      have notWord : us.head? ≠ some (.name "not") := fun first => starts _ first rfl
      simp only [Parser.reading, negation_eq_comparison us notWord]
    · rintro t (rfl | rfl) <;> simp
    · rfl
    · rintro t first rfl
      exact word first

end Operators

/-! ### The tower of levels -/

structure Level.Steady (l : Level) : Prop where
  or (ts : List Token) : Grammar.Steady l.or.reading extendsOr ts
  not (ts : List Token) : Grammar.Steady l.not.reading extendsCompare ts
  unary (ts : List Token) : Grammar.Steady l.unary.reading extendsUnary ts

theorem bottom_steady : Level.bottom.Steady :=
  ⟨fun _ => steady_fail trivial, fun _ => steady_fail trivial, fun _ => steady_fail trivial⟩

theorem step_steady {inner : Level} (below : inner.Steady) : (level.step inner).Steady := by
  have powers := power_steady (atom_steady below.or) below.unary
  have signed := unary_steady powers below.unary
  have compared := comparison_steady (leftAssoc_steady (leftAssoc_steady signed))
  have negated := negation_steady compared below.not
  exact ⟨leftAssoc_steady (leftAssoc_steady negated), negated, signed⟩

theorem level_steady (n : Nat) : (level n).Steady := by
  induction n with
  | zero => exact step_steady bottom_steady
  | succ n ih => exact step_steady ih

/-! ### Whole token lists -/

/-- Nothing may stand after `e`. -/
def finish (e : Expr) : Reading Expr
  | [] => .ok (e, [])
  | t :: _ => .error (.unexpectedToken t)

theorem finish_apart (e : Expr) {ts : List Token} (apart : Apart (fun _ => True) ts) :
    finish e ts = .ok (e, ts) := by
  cases ts with
  | nil => rfl
  | cons t ts => exact absurd trivial (apart t rfl)

theorem finish_steady (e : Expr) (ts : List Token) : Steady (finish e) (fun _ => True) ts := by
  cases ts with
  | nil => exact .taken rfl fun us apart => finish_apart e (apart rfl)
  | cons t ts => exact .refused rfl trivial fun us => rfl

def whole : Reading Expr := (level maxNesting).or.reading.andThen finish

theorem whole_steady (ts : List Token) : Steady whole (fun _ => True) ts :=
  ((level_steady maxNesting).or ts).andThen (fun _ => finish_steady _ _) fun e =>
    .optional (fun _ => finish_apart e) fun _ _ => trivial

theorem ofTokens_eq_map (ts : List Token) : Expr.ofTokens ts = (whole ts).map Prod.fst := by
  simp only [Expr.ofTokens, whole, Reading.andThen, Parser.reading]
  cases (level maxNesting).or ts with
  | error fault => rfl
  | ok r =>
    obtain ⟨e, rest, shorter⟩ := r
    cases rest <;> rfl

/-- What a fault says about the lists that begin with a faulty one. -/
theorem ofTokens_error_cases {ts : List Token} {fault : ExprError}
    (failed : Expr.ofTokens ts = .error fault) :
    (fault = .unexpectedEnd ∧
      ∃ us, us ≠ [] ∧ (∀ t ∈ us, IsFiller t) ∧ ∃ e, Expr.ofTokens (ts ++ us) = .ok e) ∨
    (IsFinal fault ∧ ∀ us, Expr.ofTokens (ts ++ us) = .error fault) := by
  rw [ofTokens_eq_map] at failed
  cases whole_steady ts with
  | taken read =>
    rw [read] at failed
    cases failed
  | refused failed' final stays =>
    rw [failed'] at failed
    cases failed
    exact .inr ⟨final, fun us => by rw [ofTokens_eq_map, stays us]; rfl⟩
  | starved us e failed' some completes =>
    rw [failed'] at failed
    cases failed
    have ends : Apart (fun _ => True) [] := by simp [Apart]
    have accepted : whole (ts ++ us) = .ok (e, []) := by simpa using completes.read ends
    refine .inl ⟨rfl, us, some, completes.filler, e, ?_⟩
    rw [ofTokens_eq_map, accepted]
    rfl

/-- A list of tokens that ends unexpectedly begins one that can be read. Any other fault is there to
stay, whatever follows. -/
theorem faults_tell_incomplete_from_wrong (ts : List Token) :
    (Expr.ofTokens ts = .error .unexpectedEnd →
      ∃ us, us ≠ [] ∧ (∀ t ∈ us, IsFiller t) ∧ ∃ e, Expr.ofTokens (ts ++ us) = .ok e) ∧
    (∀ t, Expr.ofTokens ts = .error (.unexpectedToken t) →
      ∀ us, Expr.ofTokens (ts ++ us) = .error (.unexpectedToken t)) ∧
    (∀ limit, Expr.ofTokens ts = .error (.tooDeep limit) →
      ∀ us, Expr.ofTokens (ts ++ us) = .error (.tooDeep limit)) ∧
    (∀ fault, Expr.ofTokens ts = .error fault →
      fault = .unexpectedEnd ∨ (∃ t, fault = .unexpectedToken t) ∨
        ∃ limit, fault = .tooDeep limit) := by
  refine ⟨?_, ?_, ?_, ?_⟩
  · intro failed
    obtain ⟨-, completion⟩ | ⟨final, -⟩ := ofTokens_error_cases failed
    · exact completion
    · cases final
  · intro t failed
    obtain ⟨ended, -⟩ | ⟨-, stays⟩ := ofTokens_error_cases failed
    · cases ended
    · exact stays
  · intro limit failed
    obtain ⟨ended, -⟩ | ⟨-, stays⟩ := ofTokens_error_cases failed
    · cases ended
    · exact stays
  · intro fault failed
    obtain ⟨ended, -⟩ | ⟨final, -⟩ := ofTokens_error_cases failed
    · exact .inl ended
    · cases fault with
      | unexpectedToken t => exact .inr (.inl ⟨t, rfl⟩)
      | tooDeep limit => exact .inr (.inr ⟨limit, rfl⟩)
      | _ => cases final

end RobotScript.Grammar
