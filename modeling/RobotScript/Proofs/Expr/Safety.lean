import RobotScript.Proofs.Expr.Readings

/-!
# Expressions without texts

Numbers and truth values take part in every operation. An expression that no text gets into, by a
literal, a variable or a sensor, yields none either, and its faults are those of arithmetic and of
variables that are not there.
-/

namespace RobotScript

/-- A result that is no text, or a fault that numbers can run into. `missing` tells which variables
may be undefined. -/
inductive Numeric (missing : String → Prop) : Except ExprError Value → Prop
  | value {v} (plain : v.kind ≠ .text) : Numeric missing (.ok v)
  | undefined {name} (absent : missing name) : Numeric missing (.error (.undefinedVariable name))
  | divisionByZero : Numeric missing (.error .divisionByZero)
  | overflow : Numeric missing (.error .overflow)

variable {σ : Type} {env : Environment σ} {leaves : List Expr} {s : σ}
  {missing : String → Prop} {left right v : Value}

/-! ### Operations -/

theorem exact_numeric (n : Int) : Numeric missing (exact n) := by
  unfold exact
  split
  · exact .value Value.Kind.noConfusion
  · exact .overflow

theorem exactPower_numeric (a : Int) (n : Nat) : Numeric missing (exactPower a n) := by
  unfold exactPower
  split
  · exact exact_numeric _
  · split
    · exact exact_numeric _
    · exact .overflow

theorem onFloats_numeric (op : BinaryOp) (a b : Float) : Numeric missing (op.onFloats a b) := by
  unfold BinaryOp.onFloats
  split
  · exact .divisionByZero
  · exact .value Value.Kind.noConfusion

theorem onInts_numeric (op : BinaryOp) (a b : Int64) : Numeric missing (op.onInts a b) := by
  have dividing (r : Int64) : Numeric missing
      (if b == 0 then .error .divisionByZero
        else if overflows a b then .error .overflow else .ok (.int r)) := by
    split
    · exact .divisionByZero
    · split
      · exact .overflow
      · exact .value Value.Kind.noConfusion
  cases op with
  | add | sub | mul => exact exact_numeric _
  | div => exact onFloats_numeric _ _ _
  | floorDiv | mod => exact dividing _
  | pow =>
    unfold BinaryOp.onInts
    dsimp only
    split
    · exact exactPower_numeric _ _
    · exact onFloats_numeric _ _ _

theorem number?_of_plain (plain : v.kind ≠ .text) : ∃ n, v.number? = some n := by
  cases v with
  | int | float | bool => exact ⟨_, rfl⟩
  | text => exact absurd rfl plain

theorem unary_numeric (op : UnaryOp) (plain : v.kind ≠ .text) : Numeric missing (op.apply v) := by
  obtain ⟨n, number⟩ := number?_of_plain plain
  cases op with
  | not => exact .value Value.Kind.noConfusion
  | neg =>
    rw [UnaryOp.apply, number]
    cases n with
    | int => exact exact_numeric _
    | float => exact .value Value.Kind.noConfusion
  | pos =>
    rw [UnaryOp.apply, number]
    cases n with
    | int | float => exact .value Value.Kind.noConfusion

theorem binary_numeric (op : BinaryOp) (plain : left.kind ≠ .text) (plain' : right.kind ≠ .text) :
    Numeric missing (op.apply left right) := by
  obtain ⟨m, number⟩ := number?_of_plain plain
  obtain ⟨n, number'⟩ := number?_of_plain plain'
  unfold BinaryOp.apply
  split
  · exact absurd rfl plain
  · rw [number, number']
    cases m with
    | int =>
      cases n with
      | int => exact onInts_numeric _ _ _
      | float => exact onFloats_numeric _ _ _
    | float => exact onFloats_numeric _ _ _

theorem compare_numeric (op : CompareOp) (plain : left.kind ≠ .text)
    (plain' : right.kind ≠ .text) : ∃ holds, op.apply left right = .ok holds := by
  obtain ⟨m, number⟩ := number?_of_plain plain
  obtain ⟨n, number'⟩ := number?_of_plain plain'
  unfold CompareOp.apply
  dsimp only
  split
  · exact ⟨_, rfl⟩
  · rw [number, number']
    cases m with
    | int => cases n with | int | float => exact ⟨_, rfl⟩
    | float => exact ⟨_, rfl⟩

/-! ### Evaluations -/

/-- No text gets in by `leaves`: not as a literal, not by a variable, and not by a sensor, whichever
of them have been read since `s`. -/
structure TextFree (env : Environment σ) (leaves : List Expr) (s : σ) : Prop where
  literal : ∀ v, .literal v ∈ leaves → v.kind ≠ .text
  lookup : ∀ name v, .variable name ∈ leaves → env.lookup name = some v → v.kind ≠ .text
  read : ∀ asked sensor, (∀ other ∈ asked, .sensor other ∈ leaves) → .sensor sensor ∈ leaves →
    (env.read sensor (env.after asked s)).1.kind ≠ .text

theorem TextFree.afterRead (free : TextFree env leaves s) {sensor : Sensor}
    (named : .sensor sensor ∈ leaves) : TextFree env leaves (env.read sensor s).2 where
  literal := free.literal
  lookup := free.lookup
  read asked next inside := free.read (sensor :: asked) next
    (List.forall_mem_cons.2 ⟨named, inside⟩)

variable (env leaves) in
/-- An evaluation ends well and keeps texts out of what follows. -/
def Lands (p : Except ExprError Value × σ) : Prop :=
  Numeric (fun name => .variable name ∈ leaves ∧ env.lookup name = none) p.1 ∧
    TextFree env leaves p.2

theorem Lands.andThen {m : Evaluation σ Value} {f : Value → Evaluation σ Value}
    (first : Lands env leaves (m s))
    (next : ∀ v t, v.kind ≠ .text → TextFree env leaves t → Lands env leaves (f v t)) :
    Lands env leaves (m.andThen f s) := by
  rw [Evaluation.andThen]
  generalize m s = p at first ⊢
  obtain ⟨result, t⟩ := p
  obtain ⟨numeric, free⟩ := first
  cases numeric with
  | value plain => exact next _ _ plain free
  | undefined absent => exact ⟨.undefined absent, free⟩
  | divisionByZero => exact ⟨.divisionByZero, free⟩
  | overflow => exact ⟨.overflow, free⟩

mutual

theorem eval_lands : ∀ e : Expr, e.leaves ⊆ leaves → ∀ s, TextFree env leaves s →
    Lands env leaves (e.eval env s)
  | .literal v => by
    intro inside s free
    rw [Expr.eval]
    exact ⟨.value (free.literal v (inside (by simp [Expr.leaves]))), free⟩
  | .variable name => by
    intro inside s free
    have named : .variable name ∈ leaves := inside (by simp [Expr.leaves])
    rw [Expr.eval]
    refine ⟨?_, free⟩
    rcases found : env.lookup name with _ | v
    · exact .undefined ⟨named, found⟩
    · exact .value (free.lookup name v named found)
  | .sensor sensor => by
    intro inside s free
    have named : .sensor sensor ∈ leaves := inside (by simp [Expr.leaves])
    rw [Expr.eval]
    exact ⟨.value (free.read [] sensor (by simp) named), free.afterRead named⟩
  | .unary op e => by
    intro inside s free
    rw [Expr.eval]
    rw [Expr.leaves] at inside
    exact (eval_lands e inside s free).andThen fun v t plain free => ⟨unary_numeric op plain, free⟩
  | .binary op a b => by
    intro inside s free
    rw [Expr.eval]
    rw [Expr.leaves, List.append_subset] at inside
    refine (eval_lands a inside.1 s free).andThen fun left t plain free => ?_
    exact (eval_lands b inside.2 t free).andThen fun right u plain' free =>
      ⟨binary_numeric op plain plain', free⟩
  | .compare first links => by
    intro inside s free
    rw [Expr.eval]
    rw [Expr.leaves, List.append_subset] at inside
    exact (eval_lands first inside.1 s free).andThen fun left t plain free =>
      links_land links inside.2 left plain t free
  | .and a b => by
    intro inside s free
    rw [Expr.eval]
    rw [Expr.leaves, List.append_subset] at inside
    refine (eval_lands a inside.1 s free).andThen fun left t plain free => ?_
    cases left.truthy with
    | true => exact eval_lands b inside.2 t free
    | false => exact ⟨.value plain, free⟩
  | .or a b => by
    intro inside s free
    rw [Expr.eval]
    rw [Expr.leaves, List.append_subset] at inside
    refine (eval_lands a inside.1 s free).andThen fun left t plain free => ?_
    cases left.truthy with
    | true => exact ⟨.value plain, free⟩
    | false => exact eval_lands b inside.2 t free

theorem links_land : ∀ links : List (CompareOp × Expr), Expr.linkLeaves links ⊆ leaves →
    ∀ left : Value, left.kind ≠ .text → ∀ s, TextFree env leaves s →
    Lands env leaves (Expr.evalLinks env left links s)
  | [] => by
    intro _ left _ s free
    rw [Expr.evalLinks]
    exact ⟨.value Value.Kind.noConfusion, free⟩
  | (op, e) :: links => by
    intro inside left plain s free
    rw [Expr.evalLinks]
    rw [Expr.linkLeaves, List.append_subset] at inside
    refine (eval_lands e inside.1 s free).andThen fun right t plain' free => ?_
    obtain ⟨holds, compared⟩ := compare_numeric op plain plain'
    rw [compared]
    cases holds with
    | true => exact links_land links inside.2 right plain' t free
    | false => exact ⟨.value Value.Kind.noConfusion, free⟩

end

/-- Where no text gets in, none comes out and no operation is refused its operands: there is a value
of another kind, or a variable is undefined, or arithmetic fails. -/
theorem eval_without_texts (env : Environment σ) (e : Expr) (s : σ)
    (free : TextFree env e.leaves s) :
    (∃ v, (e.eval env s).1 = .ok v ∧ v.kind ≠ .text) ∨
    (∃ name, .variable name ∈ e.leaves ∧ env.lookup name = none ∧
      (e.eval env s).1 = .error (.undefinedVariable name)) ∨
    (e.eval env s).1 = .error .divisionByZero ∨ (e.eval env s).1 = .error .overflow := by
  obtain ⟨numeric, -⟩ := eval_lands e (List.Subset.refl _) s free
  generalize (e.eval env s).1 = result at numeric ⊢
  cases numeric with
  | value plain => exact .inl ⟨_, rfl, plain⟩
  | undefined absent => exact .inr (.inl ⟨_, absent.1, absent.2, rfl⟩)
  | divisionByZero => exact .inr (.inr (.inl rfl))
  | overflow => exact .inr (.inr (.inr rfl))

/-- A truth value for a variable, and sensors that count. -/
def flagged : Environment Nat where
  lookup name := if name = "flag" then some (.bool true) else none
  read _ n := (.int (.ofNat n), n + 1)

/-- `flag and 0 <= @x % -flag <= speed` -/
def guarded : Expr :=
  .and (.variable "flag") (.compare (.literal (.int 0))
    [(.le, .binary .mod (.sensor .x) (.unary .neg (.variable "flag"))), (.le, .variable "speed")])

/-- The truth value is taken for a number, and the one fault is that `speed` is not there. -/
theorem eval_without_texts_guarded : TextFree flagged guarded.leaves 1 ∧
    ∃ name, .variable name ∈ guarded.leaves ∧ flagged.lookup name = none ∧
      (guarded.eval flagged 1).1 = .error (.undefinedVariable name) := by
  have free : TextFree flagged guarded.leaves 1 := by
    constructor
    · intro v leaf
      have zero : v = .int 0 := by simpa [guarded, Expr.leaves, Expr.linkLeaves] using leaf
      rw [zero]
      exact Value.Kind.noConfusion
    · intro name v _ found
      simp only [flagged] at found
      split at found <;> cases found
      exact Value.Kind.noConfusion
    · intro asked sensor _ _
      exact Value.Kind.noConfusion
  have stops : (guarded.eval flagged 1).1 = .error (.undefinedVariable "speed") := rfl
  refine ⟨free, ?_⟩
  obtain ⟨v, read, -⟩ | undefined | failed | failed := eval_without_texts flagged guarded 1 free
  · cases stops.symm.trans read
  · exact undefined
  · cases stops.symm.trans failed
  · cases stops.symm.trans failed

end RobotScript
