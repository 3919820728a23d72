import RobotScript.Proofs.Expr.Readings

/-!
# Comparison chains

A chain such as `0 < @x < 10` says that all of its links hold. Where sensors reply the same every
time it is the conjunction of the single comparisons, with the same value or the same fault
(`eval_compare_eq_and`). Wherever they do not, the chain still reads each operand once at most
(`Concludes`).
-/

namespace RobotScript

open Evaluation

variable {σ : Type} {env : Environment σ} {s t : σ} {first : Expr}
  {links : List (CompareOp × Expr)}

/-! ### Sensors that do not change -/

/-- Whatever has been read since, every sensor replies as it does now. -/
def Environment.Constant (env : Environment σ) (s : σ) : Prop :=
  ∀ asked sensor, (env.read sensor (env.after asked s)).1 = (env.read sensor s).1

namespace Environment.Constant

theorem replies_eq (constant : env.Constant s) (asked earlier : List Sensor) :
    env.replies asked (env.after earlier s) = asked.map fun sensor => (env.read sensor s).1 := by
  induction asked generalizing earlier with
  | nil => rfl
  | cons sensor rest ih =>
    rw [replies, constant, List.map_cons, ← ih (earlier ++ [sensor]), after_append]
    rfl

/-- What is evaluated later, or once more, gives what it would give now. -/
theorem eval_later (constant : env.Constant s) (e : Expr) (asked : List Sensor) :
    ∃ more, e.eval env (env.after asked s) =
      ((e.eval env s).1, env.after (asked ++ more) s) := by
  have same : env.replies (e.reads env s) (env.after asked s) = env.replies (e.reads env s) s := by
    rw [constant.replies_eq]
    exact (constant.replies_eq _ []).symm
  obtain ⟨result, -⟩ := e.orderly.follows env env s (env.after asked s) (fun _ _ => rfl) same
  refine ⟨e.reads env (env.after asked s), Prod.ext result ?_⟩
  rw [after_append]
  exact e.orderly.after env (env.after asked s)

end Environment.Constant

namespace Expr

/-! ### Conjunctions -/

/-- What `and` joins, however it is bracketed. -/
def conjuncts : Expr → List Expr
  | .and a b => a.conjuncts ++ b.conjuncts
  | e => [e]

/-- A conjunction that goes on from `left`. -/
def evalAnd (env : Environment σ) (left : Value) : List Expr → Evaluation σ Value
  | [] => pure left
  | e :: rest =>
    if left.truthy then (e.eval env).andThen fun right => evalAnd env right rest else pure left

theorem evalAnd_decided {left : Value} (falsy : left.truthy = false) (es : List Expr) :
    evalAnd env left es = pure left := by
  cases es with
  | nil => rfl
  | cons e rest => rw [evalAnd, falsy]; rfl

theorem evalAnd_append (left : Value) (es rest : List Expr) :
    evalAnd env left (es ++ rest) =
      (evalAnd env left es).andThen fun right => evalAnd env right rest := by
  induction es generalizing left with
  | nil => rfl
  | cons e es ih =>
    cases truthy : left.truthy with
    | false =>
      rw [evalAnd_decided truthy, evalAnd_decided truthy]
      exact (evalAnd_decided truthy rest).symm
    | true =>
      simp only [List.cons_append, evalAnd, truthy, if_true, ih, andThen_assoc]

theorem conjuncts_ne_nil (e : Expr) : e.conjuncts ≠ [] := by
  fun_induction conjuncts e with
  | case1 a b iha _ => simp [iha]
  | case2 => simp

/-- A conjunction is evaluated conjunct by conjunct, however it is bracketed. -/
theorem eval_conjuncts {e c : Expr} {rest : List Expr} (joins : e.conjuncts = c :: rest) :
    e.eval env = (c.eval env).andThen fun left => evalAnd env left rest := by
  fun_induction conjuncts e generalizing c rest with
  | case1 a b iha ihb =>
    obtain ⟨x, xs, left⟩ := List.exists_cons_of_ne_nil a.conjuncts_ne_nil
    obtain ⟨y, ys, right⟩ := List.exists_cons_of_ne_nil b.conjuncts_ne_nil
    rw [left, right, List.cons_append] at joins
    obtain ⟨rfl, rfl⟩ := List.cons.inj joins
    simp only [eval, iha left, ihb right, andThen_assoc, evalAnd_append]
    rfl
  | case2 e =>
    cases joins
    funext s
    rcases read : e.eval env s with ⟨fault | v, t⟩
    · rw [andThen_error read]
    · rw [andThen_ok read]
      rfl

/-! ### Links as comparisons -/

/-- The links of a chain as single comparisons. -/
def comparisons : Expr → List (CompareOp × Expr) → List Expr
  | _, [] => []
  | left, (op, e) :: links => .compare left [(op, e)] :: comparisons e links

variable {e : Expr} {left : Value}

theorem eval_comparison (constant : env.Constant s) (read : (e.eval env s).1 = .ok left)
    (op : CompareOp) (e' : Expr) (asked : List Sensor) :
    ∃ more, (Expr.compare e [(op, e')]).eval env (env.after asked s) =
      ((e'.eval env s).1.bind fun right => (op.apply left right).map .bool, env.after more s) := by
  obtain ⟨reads, first⟩ := constant.eval_later e asked
  obtain ⟨reads', second⟩ := constant.eval_later e' (asked ++ reads)
  refine ⟨asked ++ reads ++ reads', ?_⟩
  rw [read] at first
  rw [eval, andThen_ok first]
  rcases result : (e'.eval env s).1 with fault | right <;> rw [result] at second
  · rw [evalLinks_fault second]
    rfl
  · rw [evalLinks_link second]
    rcases verdict : op.apply left right with fault | _ | _ <;>
      simp [Except.bind, Except.map, verdict, evalLinks, Evaluation.pure]

/-- With constant sensors an operand may as well be evaluated again for the next link. -/
theorem evalLinks_eq_evalAnd (constant : env.Constant s) (read : (e.eval env s).1 = .ok left)
    (asked asked' : List Sensor) :
    (evalLinks env left links (env.after asked s)).1 =
      (evalAnd env (.bool true) (comparisons e links) (env.after asked' s)).1 := by
  induction links generalizing e left asked asked' with
  | nil => rfl
  | cons link links ih =>
    obtain ⟨op, e'⟩ := link
    obtain ⟨more, once⟩ := constant.eval_later e' asked
    obtain ⟨more', single⟩ := eval_comparison constant read op e' asked'
    show _ = ((eval env (.compare e [(op, e')])).andThen _ _).1
    rcases result : (e'.eval env s).1 with fault | right <;> rw [result] at once single
    · rw [evalLinks_fault once, andThen_error single]
    · rw [evalLinks_link once]
      rcases verdict : op.apply left right with fault | _ | _ <;>
        simp only [Except.bind, verdict, Except.map] at single
      · rw [andThen_error single]
      · rw [andThen_ok single, evalAnd_decided rfl]
        rfl
      · rw [andThen_ok single]
        exact ih result _ _

theorem eval_compare_eq_and (constant : env.Constant s) {e : Expr}
    (joins : e.conjuncts = comparisons first links) :
    ((Expr.compare first links).eval env s).1 = (e.eval env s).1 := by
  cases links with
  | nil => exact absurd joins e.conjuncts_ne_nil
  | cons link links =>
    rw [eval_conjuncts joins, eval]
    rcases read : first.eval env s with ⟨fault | left, t⟩
    · have failed : (Expr.compare first [link]).eval env s = (.error fault, t) := by
        rw [eval, andThen_error read]
      rw [andThen_error read, andThen_error failed]
    · have state := first.orderly.after env s
      rw [read] at state
      rw [andThen_ok read, show t = _ from state]
      exact evalLinks_eq_evalAnd constant (congrArg Prod.fst read) (first.reads env s) []

/-! ### How a chain ends -/

variable (env) (first) in
/-- The first operand of a chain and those of some of its links have been evaluated one after the
other, each from where the one before has left off, and the links hold. -/
inductive Linked : List (CompareOp × Expr) → σ → Value → σ → Prop
  | first {s v t} (read : first.eval env s = (.ok v, t)) : Linked [] s v t
  | next {links op e s left t right u} (before : Linked links s left t)
    (read : e.eval env t = (.ok right, u)) (holds : op.apply left right = .ok true) :
    Linked (links ++ [(op, e)]) s right u

variable (env) (first) in
/-- How a chain comes to its end. The operands behind the one evaluated last play no part. -/
inductive Concludes : List (CompareOp × Expr) → σ → Except ExprError Value × σ → Prop
  | firstFault {links s fault t} (failed : first.eval env s = (.error fault, t)) :
    Concludes links s (.error fault, t)
  | fault {tried op e untried s left t fault u} (linked : Linked env first tried s left t)
    (failed : e.eval env t = (.error fault, u)) :
    Concludes (tried ++ (op, e) :: untried) s (.error fault, u)
  | mismatch {tried op e untried s left t right u fault} (linked : Linked env first tried s left t)
    (read : e.eval env t = (.ok right, u)) (mismatch : op.apply left right = .error fault) :
    Concludes (tried ++ (op, e) :: untried) s (.error fault, u)
  | broken {tried op e untried s left t right u} (linked : Linked env first tried s left t)
    (read : e.eval env t = (.ok right, u)) (fails : op.apply left right = .ok false) :
    Concludes (tried ++ (op, e) :: untried) s (.ok (.bool false), u)
  | whole {links s v t} (linked : Linked env first links s v t) :
    Concludes links s (.ok (.bool true), t)

theorem Linked.concludes {tried : List (CompareOp × Expr)} {left : Value}
    (linked : Linked env first tried s left t) (links : List (CompareOp × Expr)) :
    Concludes env first (tried ++ links) s (evalLinks env left links t) := by
  induction links generalizing tried left t with
  | nil =>
    rw [List.append_nil]
    exact .whole linked
  | cons link links ih =>
    obtain ⟨op, e⟩ := link
    rcases read : e.eval env t with ⟨fault | right, u⟩
    · rw [evalLinks_fault read]
      exact .fault linked read
    · rw [evalLinks_link read]
      rcases verdict : op.apply left right with fault | _ | _
      · exact .mismatch linked read verdict
      · exact .broken linked read verdict
      · have further := ih (linked.next read verdict)
        rwa [List.append_assoc] at further

theorem compare_concludes (env : Environment σ) (first : Expr) (links : List (CompareOp × Expr))
    (s : σ) : Concludes env first links s ((Expr.compare first links).eval env s) := by
  rw [eval]
  rcases read : first.eval env s with ⟨fault | left, t⟩
  · rw [andThen_error read]
    exact .firstFault read
  · rw [andThen_ok read]
    exact (Linked.first read).concludes links

end Expr

/-- A chain means that its links hold: with constant sensors it comes to what any conjunction of its
links comes to. In every environment its operands are evaluated in order, each once at most, and
none behind the first link that does not hold. -/
theorem chain_means_conjunction (env : Environment σ) (s : σ) (first : Expr)
    (links : List (CompareOp × Expr)) :
    (∀ e : Expr, env.Constant s → e.conjuncts = Expr.comparisons first links →
      ((Expr.compare first links).eval env s).1 = (e.eval env s).1) ∧
    Expr.Concludes env first links s ((Expr.compare first links).eval env s) :=
  ⟨fun _ constant joins => Expr.eval_compare_eq_and constant joins,
    Expr.compare_concludes env first links s⟩

/-- Sensors that all reply `5` and count how often they are asked. -/
def fives : Environment Nat where
  lookup _ := none
  read _ n := (.int 5, n + 1)

/-- `0 < @x < 3 < high` has the value of `0 < @x and @x < 3 and 3 < high`, although this reads `@x`
twice. Neither looks at `high`. -/
theorem chain_means_conjunction_fives :
    fives.Constant 0 ∧
    ((Expr.compare (.literal (.int 0))
        [(.lt, .sensor .x), (.lt, .literal (.int 3)), (.lt, .variable "high")]).eval fives 0).1 =
      ((Expr.and (.and (.compare (.literal (.int 0)) [(.lt, .sensor .x)])
          (.compare (.sensor .x) [(.lt, .literal (.int 3))]))
        (.compare (.literal (.int 3)) [(.lt, .variable "high")])).eval fives 0).1 := by
  have constant : fives.Constant 0 := fun _ _ => rfl
  exact ⟨constant, (chain_means_conjunction fives 0 _ _).1 _ constant rfl⟩

end RobotScript
