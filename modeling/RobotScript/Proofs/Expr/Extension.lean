import RobotScript.Expr.Parser

/-!
# Readings and what follows

A reading takes something off the front of a token list. `Steady` says what its answer to a list
tells about the lists that go on from there: what it has taken stays taken, what it refuses stays
refused, and where it runs out of tokens it can be satisfied. One reading after another is steady if
both are, `Steady.andThen`.
-/

namespace RobotScript.Grammar

variable {α β : Type}

abbrev Reading (α : Type) := List Token → Except ExprError (α × List Token)

namespace Reading

def andThen (f : Reading α) (g : α → Reading β) : Reading β := fun ts =>
  match f ts with
  | .error fault => .error fault
  | .ok (a, rest) => g a rest

def map (f : Reading α) (h : α → β) : Reading β := f.andThen fun a ts => .ok (h a, ts)

theorem andThen_error {f : Reading α} {ts : List Token} {fault : ExprError}
    (failed : f ts = .error fault) (g : α → Reading β) : f.andThen g ts = .error fault := by
  simp only [andThen, failed]

theorem andThen_ok {f : Reading α} {ts rest : List Token} {a : α} (read : f ts = .ok (a, rest))
    (g : α → Reading β) : f.andThen g ts = g a rest := by
  simp only [andThen, read]

end Reading

/-! ### Steady readings -/

/-- Faults that no further token repairs. -/
def IsFinal : ExprError → Prop
  | .unexpectedToken _ | .tooDeep _ => True
  | _ => False

/-- What a list that ends too early is completed with. -/
def IsFiller (t : Token) : Prop := t = .int 0 ∨ t = .symbol .closeParen

/-- The first of the tokens, if there is one, does not go on with what stands before it. -/
def Apart (goesOn : Token → Prop) (ts : List Token) : Prop := ∀ t ∈ ts.head?, ¬ goesOn t

/-- With `us` after it, `ts` is read to the end as `a`. -/
structure Completes (f : Reading α) (goesOn : Token → Prop) (ts us : List Token) (a : α) :
    Prop where
  filler : ∀ t ∈ us, IsFiller t
  read {rest} : Apart goesOn rest → f (ts ++ us ++ rest) = .ok (a, rest)

/-- What `f` answers to `ts`, and what follows from it for lists that begin with `ts`. -/
inductive Steady (f : Reading α) (goesOn : Token → Prop) (ts : List Token) : Prop
  | taken {a rest} (read : f ts = .ok (a, rest))
    (on : ∀ us, (rest = [] → Apart goesOn us) → f (ts ++ us) = .ok (a, rest ++ us))
  | refused {fault} (failed : f ts = .error fault) (final : IsFinal fault)
    (stays : ∀ us, f (ts ++ us) = .error fault)
  | starved (us a) (failed : f ts = .error .unexpectedEnd) (some : us ≠ [])
    (completes : Completes f goesOn ts us a)

section Steady

variable {f g : Reading α} {goesOn : Token → Prop} {ts us : List Token} {t : Token}

theorem steady_pure (a : α) : Steady (fun ts => .ok (a, ts)) goesOn ts :=
  .taken rfl fun _ _ => rfl

theorem steady_fail {fault : ExprError} (final : IsFinal fault) :
    Steady (α := α) (fun _ => .error fault) goesOn ts :=
  .refused rfl final fun _ => rfl

theorem Steady.transfer (steady : Steady g goesOn us)
    (same : ∀ vs, f (ts ++ vs) = g (us ++ vs)) : Steady f goesOn ts := by
  have here : f ts = g us := by simpa using same []
  cases steady with
  | taken read on =>
    exact .taken (here.trans read) fun vs apart => (same vs).trans (on vs apart)
  | refused failed final stays =>
    exact .refused (here.trans failed) final fun vs => (same vs).trans (stays vs)
  | starved us' a failed some completes =>
    refine .starved us' a (here.trans failed) some ⟨completes.filler, fun {rest} ends => ?_⟩
    rw [List.append_assoc, same, ← List.append_assoc]
    exact completes.read ends

theorem Steady.cons (steady : Steady g goesOn ts) (same : ∀ us, f (t :: us) = g us) :
    Steady f goesOn (t :: ts) :=
  steady.transfer fun vs => same (ts ++ vs)

/-- Two readings may differ on tokens that no completion begins with. -/
theorem Steady.congr (plain : Token → Prop) (steady : Steady g goesOn ts)
    (same : ∀ us, (∀ t ∈ us.head?, plain t) → f us = g us) (fillers : ∀ t, IsFiller t → plain t)
    (nothing : g [] = .error .unexpectedEnd) (starts : ∀ t ∈ ts.head?, plain t) :
    Steady f goesOn ts := by
  cases ts with
  | cons t ts => exact steady.transfer fun vs => same _ (by simpa using starts)
  | nil =>
    cases steady with
    | taken read =>
      rw [nothing] at read
      cases read
    | refused failed final =>
      rw [nothing] at failed
      cases failed
      cases final
    | starved us a failed some completes =>
      refine .starved us a ((same [] starts).trans failed) some ⟨completes.filler, fun ends => ?_⟩
      obtain ⟨t, us, rfl⟩ := List.exists_cons_of_ne_nil some
      have plain := fillers t (completes.filler t (by simp))
      rw [same _ (by simpa using plain)]
      exact completes.read ends

end Steady

/-! ### One reading after another -/

/-- How a reading ends where the tokens do, after something that `goesOn` extends: it takes nothing,
or it misses tokens, of which none extends what stands before. -/
inductive Closes (f : Reading α) (goesOn goesOn' : Token → Prop) : Prop
  | optional {a} (nothing : ∀ rest, Apart goesOn' rest → f rest = .ok (a, rest))
    (wider : ∀ t, goesOn t → goesOn' t)
  | required {t us a} (ended : f [] = .error .unexpectedEnd) (apart : ¬ goesOn t)
    (completes : Completes f goesOn' [] (t :: us) a)

section AndThen

variable {f : Reading α} {g : α → Reading β} {goesOn goesOn' : Token → Prop} {ts : List Token}

theorem Closes.completion {f : Reading α} (closes : Closes f goesOn goesOn') :
    ∃ us a, Completes f goesOn' [] us a ∧
      ∀ rest, Apart goesOn' rest → Apart goesOn (us ++ rest) := by
  cases closes with
  | @optional a nothing wider =>
    refine ⟨[], a, ⟨by simp, fun ends => nothing _ ends⟩, ?_⟩
    intro rest ends t first goes
    exact ends t first (wider t goes)
  | @required t us a _ apart completes =>
    refine ⟨t :: us, a, completes, ?_⟩
    intro rest _ t' first
    cases first
    exact apart

theorem Steady.andThen (first : Steady f goesOn ts)
    (next : ∀ {a rest}, f ts = .ok (a, rest) → Steady (g a) goesOn' rest)
    (closes : ∀ a, Closes (g a) goesOn goesOn') : Steady (f.andThen g) goesOn' ts := by
  cases first with
  | refused failed final stays =>
    exact .refused (Reading.andThen_error failed g) final fun us =>
      Reading.andThen_error (stays us) g
  | starved us a failed some completes =>
    obtain ⟨vs, b, completes', apart⟩ := (closes a).completion
    refine .starved (us ++ vs) b (Reading.andThen_error failed g) (by simp [some])
      ⟨?_, fun {rest} ends => ?_⟩
    · intro t member
      exact (List.mem_append.1 member).elim (completes.filler t) (completes'.filler t)
    · have read := completes.read (apart rest ends)
      rw [← List.append_assoc] at read ⊢
      rw [Reading.andThen_ok (by simpa using read)]
      exact completes'.read ends
  | @taken a between read on =>
    have here := Reading.andThen_ok read g
    have there (us : List Token) (apart : between = [] → Apart goesOn us) :
        f.andThen g (ts ++ us) = g a (between ++ us) := Reading.andThen_ok (on us apart) g
    cases between with
    | cons t between => exact (next read).transfer fun us => there us (by simp)
    | nil =>
      -- The first reading has used up the tokens, so all depends on how the second one ends.
      cases closes a with
      | @optional b nothing wider =>
        refine .taken (here.trans (nothing [] (by simp [Apart]))) fun us apart => ?_
        rw [there us fun _ t first goes => apart rfl t first (wider t goes)]
        exact nothing us (apart rfl)
      | @required t us b ended apart completes =>
        refine .starved (t :: us) b (here.trans ended) (by simp)
          ⟨completes.filler, fun {rest} ends => ?_⟩
        rw [List.append_assoc, there]
        · exact completes.read ends
        · intro _ t' first
          cases first
          exact apart

theorem Steady.map (steady : Steady f goesOn ts) (h : α → β) : Steady (f.map h) goesOn ts :=
  steady.andThen (fun _ => steady_pure _) fun _ => .optional (fun _ _ => rfl) fun _ => id

end AndThen

end RobotScript.Grammar
