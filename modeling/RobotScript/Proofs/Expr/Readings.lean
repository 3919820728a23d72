import RobotScript.Expr.Eval

/-!
# What an evaluation reads

An evaluation learns about its environment from the variables of the expression and from the
replies of the sensors it reads, and from nothing else. It reads them in the order in which they
stand in the expression and leaves out some of them, never reading one twice for one occurrence.
-/

namespace RobotScript

variable {σ α β γ : Type}

/-! ### Environments -/

namespace Environment

/-- The state after sensors have been read one after the other. -/
def after (env : Environment σ) : List Sensor → σ → σ
  | [], s => s
  | sensor :: rest, s => env.after rest (env.read sensor s).2

/-- What they have replied. -/
def replies (env : Environment σ) : List Sensor → σ → List Value
  | [], _ => []
  | sensor :: rest, s => (env.read sensor s).1 :: env.replies rest (env.read sensor s).2

theorem after_append (env : Environment σ) (first later : List Sensor) (s : σ) :
    env.after (first ++ later) s = env.after later (env.after first s) := by
  induction first generalizing s with
  | nil => rfl
  | cons sensor rest ih => exact ih _

theorem replies_append (env : Environment σ) (first later : List Sensor) (s : σ) :
    env.replies (first ++ later) s =
      env.replies first s ++ env.replies later (env.after first s) := by
  induction first generalizing s with
  | nil => rfl
  | cons sensor rest ih => exact congrArg _ (ih _)

theorem length_replies (env : Environment σ) (asked : List Sensor) (s : σ) :
    (env.replies asked s).length = asked.length := by
  induction asked generalizing s with
  | nil => rfl
  | cons sensor rest ih => exact congrArg _ (ih _)

/-- The environment that also keeps which sensors are read, in order. -/
def logged (env : Environment σ) : Environment (σ × List Sensor) where
  lookup := env.lookup
  read sensor r := ((env.read sensor r.1).1, (env.read sensor r.1).2, r.2 ++ [sensor])

end Environment

namespace Evaluation

variable {m : Evaluation σ α} {f : α → Evaluation σ β} {s t : σ}

theorem andThen_ok {a : α} (done : m s = (.ok a, t)) : m.andThen f s = f a t := by
  rw [andThen, done]

theorem andThen_error {fault : ExprError} (failed : m s = (.error fault, t)) :
    m.andThen f s = (.error fault, t) := by
  rw [andThen, failed]

theorem andThen_assoc (m : Evaluation σ α) (f : α → Evaluation σ β) (g : β → Evaluation σ γ) :
    (m.andThen f).andThen g = m.andThen fun a => (f a).andThen g := by
  funext s
  rw [andThen, andThen, andThen]
  rcases m s with ⟨fault | a, t⟩ <;> rfl

end Evaluation

/-! ### Leaves -/

namespace Expr

mutual

/-- The literals, variables and sensors of an expression, from left to right. -/
def leaves : Expr → List Expr
  | .literal v => [.literal v]
  | .variable name => [.variable name]
  | .sensor s => [.sensor s]
  | .unary _ e => e.leaves
  | .binary _ a b | .and a b | .or a b => a.leaves ++ b.leaves
  | .compare first links => first.leaves ++ linkLeaves links

def linkLeaves : List (CompareOp × Expr) → List Expr
  | [] => []
  | (_, e) :: links => e.leaves ++ linkLeaves links

end

def sensor? : Expr → Option Sensor
  | .sensor s => some s
  | _ => none

/-- The sensors an expression names, from left to right and as often as it names them. -/
def sensors (e : Expr) : List Sensor := e.leaves.filterMap sensor?

/-- The sensors that an evaluation reads, in order. -/
def reads (e : Expr) (env : Environment σ) (s : σ) : List Sensor :=
  (e.eval env.logged (s, [])).2.2

end Expr

/-! ### Orderly evaluations -/

/-- An evaluation that can be made in any environment. -/
abbrev Inquiry (α : Type) := ∀ σ : Type, Environment σ → Evaluation σ α

namespace Inquiry

def reads (m : Inquiry α) (env : Environment σ) (s : σ) : List Sensor :=
  (m _ env.logged (s, [])).2.2

/-- An evaluation that knows its environment by `leaves` only: it asks for their sensors in their
order, and its result follows from their variables and from the replies. -/
structure Orderly (leaves : List Expr) (m : Inquiry α) : Prop where
  logged : ∀ {σ} (env : Environment σ) s log,
    m _ env.logged (s, log) = ((m _ env s).1, (m _ env s).2, log ++ m.reads env s)
  after : ∀ {σ} (env : Environment σ) s, (m _ env s).2 = env.after (m.reads env s) s
  sublist : ∀ {σ} (env : Environment σ) s,
    (m.reads env s).Sublist (leaves.filterMap Expr.sensor?)
  follows : ∀ {σ τ} (env : Environment σ) (env' : Environment τ) s s',
    (∀ name, .variable name ∈ leaves → env'.lookup name = env.lookup name) →
    env'.replies (m.reads env s) s' = env.replies (m.reads env s) s →
    (m _ env' s').1 = (m _ env s).1 ∧ m.reads env' s' = m.reads env s

namespace Orderly

theorem ofExcept (leaves : List Expr) (r : Except ExprError α) :
    Orderly leaves fun _ _ => Evaluation.ofExcept r where
  logged _ _ log := by simp [reads, Evaluation.ofExcept]
  after _ _ := rfl
  sublist _ _ := List.nil_sublist _
  follows _ _ _ _ _ _ := ⟨rfl, rfl⟩

theorem lookup (name : String) (f : Option Value → Except ExprError α) :
    Orderly [.variable name] fun _ env => Evaluation.ofExcept (f (env.lookup name)) where
  logged _ _ log := by simp [reads, Evaluation.ofExcept, Environment.logged]
  after _ _ := rfl
  sublist _ _ := List.nil_sublist _
  follows env env' _ _ agree _ := by
    refine ⟨?_, rfl⟩
    show f (env'.lookup name) = f (env.lookup name)
    rw [agree name (by simp)]

theorem read (sensor : Sensor) :
    Orderly [.sensor sensor] fun _ env s => (.ok (env.read sensor s).1, (env.read sensor s).2) where
  logged _ _ log := by simp [reads, Environment.logged]
  after _ _ := rfl
  sublist _ _ := List.Sublist.refl _
  follows env env' s s' _ replies := by
    obtain ⟨reply, -⟩ := List.cons.inj replies
    exact ⟨congrArg Except.ok reply, rfl⟩

section AndThen

variable {before behind : List Expr} {m : Inquiry α} {f : α → Inquiry β}

theorem reads_andThen (first : Orderly before m) (next : ∀ a, Orderly behind (f a))
    (env : Environment σ) (s : σ) :
    reads (fun σ env => (m σ env).andThen fun a => f a σ env) env s =
      m.reads env s ++ match (m σ env s).1 with
        | .ok a => (f a).reads env (m σ env s).2
        | .error _ => [] := by
  rw [reads, Evaluation.andThen, first.logged]
  rcases (m σ env s).1 with fault | a
  · simp
  · simp [(next a).logged]

theorem andThen (first : Orderly before m) (next : ∀ a, Orderly behind (f a)) :
    Orderly (before ++ behind) fun σ env => (m σ env).andThen fun a => f a σ env where
  logged env s log := by
    rw [reads_andThen first next, Evaluation.andThen, Evaluation.andThen, first.logged]
    rcases m _ env s with ⟨fault | a, t⟩
    · simp
    · simp [(next a).logged]
  after env s := by
    have state := first.after env s
    rw [reads_andThen first next, Evaluation.andThen, Environment.after_append, ← state]
    rcases m _ env s with ⟨fault | a, t⟩
    · rfl
    · exact (next a).after env t
  sublist env s := by
    rw [reads_andThen first next, List.filterMap_append]
    refine (first.sublist env s).append ?_
    rcases m _ env s with ⟨fault | a, t⟩
    · exact List.nil_sublist _
    · exact (next a).sublist env t
  follows env env' s s' agree replies := by
    -- the replies to the first part are the same, so it ends alike in both; then those to the rest
    rw [reads_andThen first next, Environment.replies_append, Environment.replies_append] at replies
    obtain ⟨early, late⟩ := List.append_inj replies (by simp only [Environment.length_replies])
    obtain ⟨result, asked⟩ := first.follows env env' s s'
      (fun name inside => agree name (List.mem_append_left _ inside)) early
    rw [← first.after, ← asked, ← first.after] at late
    rw [reads_andThen first next, reads_andThen first next, asked, Evaluation.andThen,
      Evaluation.andThen]
    revert result late
    rcases m _ env s with ⟨fault | a, t⟩ <;> rcases m _ env' s' with ⟨fault' | a', t'⟩ <;>
      rintro late ⟨⟩
    · exact ⟨rfl, rfl⟩
    · obtain ⟨same, asked⟩ := (next a).follows env env' t t'
        (fun name inside => agree name (List.mem_append_right _ inside)) late
      exact ⟨same, congrArg _ asked⟩

end AndThen

end Orderly

end Inquiry

namespace Expr

open Inquiry

mutual

theorem orderly : ∀ e : Expr, Orderly e.leaves fun _ env => e.eval env
  | .literal v => by
    simp only [eval]
    exact .ofExcept _ (.ok v)
  | .variable name => by
    simp only [eval, leaves]
    exact .lookup name fun found => found.elim (.error (.undefinedVariable name)) .ok
  | .sensor s => by
    simp only [eval, leaves]
    exact .read s
  | .unary op e => by
    simp only [eval, leaves]
    simpa using e.orderly.andThen fun v => .ofExcept [] (op.apply v)
  | .binary op a b => by
    simp only [eval, leaves]
    exact a.orderly.andThen fun left => by
      simpa using b.orderly.andThen fun right => .ofExcept [] (op.apply left right)
  | .compare first links => by
    simp only [eval, leaves]
    exact first.orderly.andThen fun left => linksOrderly links left
  | .and a b => by
    simp only [eval, leaves]
    refine a.orderly.andThen fun left => ?_
    cases left.truthy with
    | true => exact b.orderly
    | false => exact .ofExcept _ (.ok left)
  | .or a b => by
    simp only [eval, leaves]
    refine a.orderly.andThen fun left => ?_
    cases left.truthy with
    | true => exact .ofExcept _ (.ok left)
    | false => exact b.orderly

theorem linksOrderly : ∀ (links : List (CompareOp × Expr)) (left : Value),
    Orderly (linkLeaves links) fun _ env => evalLinks env left links
  | [], _ => by
    simp only [evalLinks]
    exact .ofExcept _ (.ok (Value.bool true))
  | (op, e) :: links, left => by
    simp only [evalLinks, linkLeaves]
    refine e.orderly.andThen fun right => ?_
    refine Orderly.andThen (.ofExcept [] (op.apply left right)) fun holds => ?_
    cases holds with
    | true => exact linksOrderly links right
    | false => exact .ofExcept _ (.ok (Value.bool false))

end

theorem eval_logged (e : Expr) (env : Environment σ) (s : σ) :
    e.eval env.logged (s, []) = ((e.eval env s).1, (e.eval env s).2, e.reads env s) :=
  e.orderly.logged env s []

/-! ### What is skipped -/

section Skipping

variable {env : Environment σ} {s t : σ} {first a b e : Expr} {links : List (CompareOp × Expr)}
  {op : CompareOp} {left right : Value} {fault : ExprError}

theorem evalLinks_fault (failed : e.eval env s = (.error fault, t)) :
    evalLinks env left ((op, e) :: links) s = (.error fault, t) := by
  rw [evalLinks, Evaluation.andThen_error failed]

theorem evalLinks_link (read : e.eval env s = (.ok right, t)) :
    evalLinks env left ((op, e) :: links) s =
      match op.apply left right with
      | .ok true => evalLinks env right links t
      | .ok false => (.ok (.bool false), t)
      | .error fault => (.error fault, t) := by
  rw [evalLinks, Evaluation.andThen_ok read, Evaluation.andThen, Evaluation.ofExcept]
  rcases op.apply left right with fault | _ | _ <;> rfl

theorem reads_and_decided (decided : ∀ v, (a.eval env s).1 = .ok v → v.truthy = false) :
    (Expr.and a b).reads env s = a.reads env s := by
  have logged := a.eval_logged env s
  rcases result : (a.eval env s).1 with fault | v <;> rw [result] at logged
  · rw [reads, eval, Evaluation.andThen_error logged]
  · rw [reads, eval, Evaluation.andThen_ok logged, decided v result]
    rfl

theorem reads_or_decided (decided : ∀ v, (a.eval env s).1 = .ok v → v.truthy = true) :
    (Expr.or a b).reads env s = a.reads env s := by
  have logged := a.eval_logged env s
  rcases result : (a.eval env s).1 with fault | v <;> rw [result] at logged
  · rw [reads, eval, Evaluation.andThen_error logged]
  · rw [reads, eval, Evaluation.andThen_ok logged, decided v result]
    rfl

theorem evalLinks_append (stopped : (evalLinks env left links s).1 ≠ .ok (.bool true))
    (more : List (CompareOp × Expr)) :
    evalLinks env left (links ++ more) s = evalLinks env left links s := by
  induction links generalizing left s with
  | nil => exact absurd rfl stopped
  | cons link links ih =>
    obtain ⟨op, e⟩ := link
    rw [List.cons_append]
    rcases read : e.eval env s with ⟨fault | right, t⟩
    · rw [evalLinks_fault read, evalLinks_fault read]
    · rw [evalLinks_link read] at stopped ⊢
      rw [evalLinks_link read]
      generalize op.apply left right = verdict at stopped ⊢
      rcases verdict with fault | _ | _
      · rfl
      · rfl
      · exact ih stopped

/-- A chain that has come to its end does not look at further links. -/
theorem eval_compare_append
    (stopped : ((Expr.compare first links).eval env s).1 ≠ .ok (.bool true))
    (more : List (CompareOp × Expr)) :
    (Expr.compare first (links ++ more)).eval env s = (Expr.compare first links).eval env s := by
  rw [eval] at stopped
  rw [eval, eval]
  rcases read : first.eval env s with ⟨fault | left, t⟩
  · rw [Evaluation.andThen_error read, Evaluation.andThen_error read]
  · rw [Evaluation.andThen_ok read] at stopped ⊢
    rw [Evaluation.andThen_ok read]
    exact evalLinks_append stopped more

theorem reads_compare_append
    (stopped : ((Expr.compare first links).eval env s).1 ≠ .ok (.bool true))
    (more : List (CompareOp × Expr)) :
    (Expr.compare first (links ++ more)).reads env s = (Expr.compare first links).reads env s := by
  rw [reads, eval_compare_append ?_ more, ← reads]
  rwa [eval_logged]

end Skipping

end Expr

/-! ### Two environments -/

/-- An evaluation depends on its environment by what it reads: by the variables of the expression
and the replies of the sensors. It reads these in the order of the expression, none twice for one
occurrence, and does nothing else to the environment. A decided `and` or `or` reads nothing on its
right, and a chain nothing behind the link that ends it. -/
theorem eval_follows_reads (e : Expr) (env : Environment σ) (s : σ) :
    (∀ (τ : Type) (env' : Environment τ) (s' : τ),
      (∀ name, .variable name ∈ e.leaves → env'.lookup name = env.lookup name) →
      env'.replies (e.reads env s) s' = env.replies (e.reads env s) s →
      (e.eval env' s').1 = (e.eval env s).1 ∧ e.reads env' s' = e.reads env s) ∧
    (e.reads env s).Sublist e.sensors ∧
    (e.eval env s).2 = env.after (e.reads env s) s ∧
    (∀ a b, e = .and a b → (∀ v, (a.eval env s).1 = .ok v → v.truthy = false) →
      e.reads env s = a.reads env s) ∧
    (∀ a b, e = .or a b → (∀ v, (a.eval env s).1 = .ok v → v.truthy = true) →
      e.reads env s = a.reads env s) ∧
    (∀ first links more, e = .compare first (links ++ more) →
      ((Expr.compare first links).eval env s).1 ≠ .ok (.bool true) →
      e.reads env s = (Expr.compare first links).reads env s) := by
  refine ⟨?_, e.orderly.sublist env s, e.orderly.after env s, ?_, ?_, ?_⟩
  · intro τ env' s' agree replies
    exact e.orderly.follows env env' s s' agree replies
  · rintro a b rfl decided
    exact Expr.reads_and_decided decided
  · rintro a b rfl decided
    exact Expr.reads_or_decided decided
  · rintro first links more rfl stopped
    exact Expr.reads_compare_append stopped more

/-- Sensors that count. -/
def counting : Environment Nat where
  lookup _ := none
  read _ n := (.int (.ofNat n), n + 1)

/-- Sensors that reply from a list. -/
def prepared : Environment (List Value) where
  lookup _ := none
  read _ replies := (replies.headD (.bool false), replies.tail)

/-- `0 < @random < @random or @x` -/
def rising : Expr :=
  .or (.compare (.literal (.int 0)) [(.lt, .sensor .random), (.lt, .sensor .random)]) (.sensor .x)

theorem eval_follows_reads_rising :
    rising.reads counting 3 = [.random, .random] ∧
    counting.replies [.random, .random] 3 = [.int 3, .int 4] ∧
    (rising.eval prepared [.int 3, .int 4]).1 = (rising.eval counting 3).1 ∧
    rising.reads prepared [.int 3, .int 4] = [.random, .random] := by
  have reads : rising.reads counting 3 = [.random, .random] := rfl
  have replies : counting.replies [.random, .random] 3 = [.int 3, .int 4] := rfl
  have follows := (eval_follows_reads rising counting 3).1
  rw [reads, replies] at follows
  obtain ⟨same, asked⟩ := follows _ prepared [.int 3, .int 4] (fun _ _ => rfl) rfl
  exact ⟨reads, replies, same, asked⟩

end RobotScript
