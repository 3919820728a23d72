import Mathlib.Order.Monotone.Basic
import RobotScript.Proofs.Script.Keywords
import RobotScript.Proofs.Script.Layout

/-!
# Recasting lines

The parser compares indents with each other and copies numbers. So lines with other numbers, and
with other indents in the same order, spell the same tree but for the numbers in it.
-/

namespace RobotScript

open Block

/-- The line with another number and another indent. -/
def Line.recast (number indent : Nat → Nat) (l : Line) : Line :=
  ⟨number l.number, indent l.indent, l.text⟩

section

variable (number indent : Nat → Nat) (l : Line)

@[simp] theorem recast_number : (l.recast number indent).number = number l.number := rfl

@[simp] theorem recast_indent : (l.recast number indent).indent = indent l.indent := rfl

@[simp] theorem recast_text : (l.recast number indent).text = l.text := rfl

end

namespace Stmt

mutual

/-- The statement with `f` applied to its number and to those of the statements within it. -/
def renumber (f : Nat → Nat) : Stmt → Stmt
  | .branch line condition body none => .branch (f line) condition (renumberAll f body) none
  | .branch line condition body (some otherwise) =>
    .branch (f line) condition (renumberAll f body) (some (renumberAll f otherwise))
  | .loop line condition body => .loop (f line) condition (renumberAll f body)
  | .forever line body => .forever (f line) (renumberAll f body)
  | .group line closed body => .group (f line) closed (renumberAll f body)
  | .leave line => .leave (f line)
  | .again line => .again (f line)
  | .strayEnd line => .strayEnd (f line)
  | .strayElse line => .strayElse (f line)
  | .set line name value => .set (f line) name value
  | .print line newline value => .print (f line) newline value
  | .command line text => .command (f line) text
  | .invalid line error => .invalid (f line) error

def renumberAll (f : Nat → Nat) : List Stmt → List Stmt
  | [] => []
  | stmt :: next => stmt.renumber f :: renumberAll f next

end

mutual

theorem renumber_id : ∀ stmt : Stmt, stmt.renumber id = stmt
  | .branch _ _ body none => by rw [renumber, renumberAll_id body, id]
  | .branch _ _ body (some otherwise) => by
    rw [renumber, renumberAll_id body, renumberAll_id otherwise, id]
  | .loop _ _ body | .forever _ body | .group _ _ body => by rw [renumber, renumberAll_id body, id]
  | .leave _ | .again _ | .strayEnd _ | .strayElse _ | .set _ _ _ | .print _ _ _ | .command _ _
  | .invalid _ _ => rfl

theorem renumberAll_id : ∀ stmts : List Stmt, renumberAll id stmts = stmts
  | [] => rfl
  | stmt :: next => by rw [renumberAll, renumber_id stmt, renumberAll_id next]

end

theorem renumber_ofSet (f : Nat → Nat) (line : Nat) (cs : List Char) :
    (ofSet line cs).renumber f = ofSet (f line) cs := by
  unfold ofSet
  dsimp only
  repeat' split
  all_goals rfl

theorem renumber_ofPrint (f : Nat → Nat) (line : Nat) (newline : Bool) (cs : List Char) :
    (ofPrint line newline cs).renumber f = ofPrint (f line) newline cs := by
  unfold ofPrint
  repeat' split
  all_goals rfl

end Stmt

open Stmt (renumberAll)

/-- The kind of a recast line. -/
def Line.Kind.renumber (f : Nat → Nat) : Line.Kind → Line.Kind
  | .single stmt => .single (stmt.renumber f)
  | kind => kind

theorem Line.Kind.renumber_id (kind : Line.Kind) : kind.renumber id = kind := by
  cases kind with
  | single stmt => rw [renumber, Stmt.renumber_id]
  | _ => rfl

/-- `h` gives lines that the parser treats alike: their numbers are changed by `f` and their indents
by `g`, and nothing but the numbers of their statements tells their kinds apart. -/
structure Recasts (f g : Nat → Nat) (h : Line → Line) : Prop where
  number (l : Line) : (h l).number = f l.number
  indent (l : Line) : (h l).indent = g l.indent
  kind (l : Line) : (h l).kind = l.kind.renumber f

namespace Block

theorem cut_subset (l : Line) (rest : List Line) :
    (cut l rest).inside ⊆ rest ∧ (cut l rest).otherwise ⊆ rest ∧ (cut l rest).next ⊆ rest := by
  have parts := cut_parts l rest
  refine ⟨?_, ?_, ?_⟩
  all_goals
    intro m member
    rw [parts]
    simp [member]

def Cut.map (f : Line → Line) (c : Cut) : Cut :=
  ⟨c.inside.map f, c.mark.map f, c.otherwise.map f, c.dropped.map f, c.next.map f⟩

theorem kind_recast (f g : Nat → Nat) (l : Line) :
    (l.recast f g).kind = l.kind.renumber f := by
  have word : (l.recast f g).word = l.word := rfl
  have rest : (l.recast f g).rest = l.rest := rfl
  rw [kind_eq, kind_eq]
  simp only [apply_ite (Line.Kind.renumber f)]
  simp only [Line.Kind.renumber, Stmt.renumber_ofSet, Stmt.renumber_ofPrint, Stmt.renumber,
    Line.Bare, word, rest, recast_number, recast_text]

theorem recasts_recast (f g : Nat → Nat) : Recasts f g (Line.recast f g) where
  number _ := rfl
  indent _ := rfl
  kind := kind_recast f g

section Recasts

variable {f g : Nat → Nat} {h : Line → Line} (recasts : Recasts f g h)

include recasts

theorem isElse_recasts (l : Line) : (h l).isElse = l.isElse := by
  rw [Bool.eq_iff_iff, isElse_iff_kind, isElse_iff_kind, recasts.kind]
  cases l.kind <;> simp [Line.Kind.renumber]

theorem isBegin_recasts (l : Line) : (h l).isBegin = l.isBegin := by
  rw [Bool.eq_iff_iff, isBegin_iff_kind, isBegin_iff_kind, recasts.kind]
  cases l.kind <;> simp [Line.Kind.renumber]

theorem isEnd_recasts (l : Line) : (h l).isEnd = l.isEnd := by
  rw [Bool.eq_iff_iff, isEnd_iff_kind, isEnd_iff_kind, recasts.kind]
  cases l.kind <;> simp [Line.Kind.renumber]

section Level

variable {S : Set Nat} {indent : Nat} {lines : List Line} (mono : StrictMonoOn g S)
  (here : indent ∈ S) (all : ∀ l ∈ lines, l.indent ∈ S)

include mono here all

theorem body_recasts : body (g indent) (lines.map h) = (body indent lines).map h := by
  unfold body
  induction lines with
  | nil => rfl
  | cons l lines ih =>
    obtain ⟨first, rest⟩ := List.forall_mem_cons.1 all
    rw [List.map_cons, List.takeWhile_cons, List.takeWhile_cons, ih rest, recasts.indent]
    simp only [mono.lt_iff_lt here first]
    split <;> rfl

theorem after_recasts : after (g indent) (lines.map h) = (after indent lines).map h := by
  have parts : (body indent lines).map h ++ after (g indent) (lines.map h) =
      (body indent lines).map h ++ (after indent lines).map h := by
    rw [← List.map_append, body_append_after, ← body_recasts recasts mono here all,
      body_append_after]
  exact List.append_cancel_left parts

theorem elseBranch?_recasts :
    elseBranch? (g indent) (lines.map h) =
      (elseBranch? indent lines).map fun (otherwise, next) => (otherwise.map h, next.map h) := by
  cases lines with
  | nil => rfl
  | cons l lines =>
    obtain ⟨first, rest⟩ := List.forall_mem_cons.1 all
    have level : (g l.indent == g indent) = (l.indent == indent) := by
      rw [Bool.eq_iff_iff, beq_iff_eq, beq_iff_eq]
      exact mono.eq_iff_eq first here
    simp only [elseBranch?, List.map_cons, recasts.indent, isElse_recasts recasts, level,
      body_recasts recasts mono here rest, after_recasts recasts mono here rest]
    split <;> rfl

end Level

theorem splitGroup?_recasts (depth : Nat) (lines : List Line) :
    splitGroup? depth (lines.map h) =
      (splitGroup? depth lines).map fun (inside, next) => (inside.map h, next.map h) := by
  have begins := isBegin_recasts recasts
  have ends := isEnd_recasts recasts
  fun_induction splitGroup? depth lines with
  | case1 => rfl
  | case2 depth l lines begun ih => simp [splitGroup?, begins, begun, ih, Function.comp_def]
  | case3 l lines plain ended => simp [splitGroup?, begins, ends, plain, ended]
  | case4 l lines plain ended depth ih =>
    simp [splitGroup?, begins, ends, plain, ended, ih, Function.comp_def]
  | case5 depth l lines plain ended ih =>
    simp [splitGroup?, begins, ends, plain, ended, ih, Function.comp_def]

theorem cut_recasts {S : Set Nat} (mono : StrictMonoOn g S) {l : Line} {rest : List Line}
    (here : l.indent ∈ S) (all : ∀ m ∈ rest, m.indent ∈ S) :
    cut (h l) (rest.map h) = (cut l rest).map h := by
  have later : ∀ m ∈ after l.indent rest, m.indent ∈ S :=
    fun m member => all m (List.dropWhile_subset _ member)
  unfold cut
  rw [recasts.kind]
  cases l.kind with
  | branch condition =>
    simp only [Line.Kind.renumber, recasts.indent, body_recasts recasts mono here all,
      after_recasts recasts mono here all, elseBranch?_recasts recasts mono here later]
    cases elseBranch? l.indent (after l.indent rest) <;> simp [Cut.map]
  | opening =>
    simp only [Line.Kind.renumber, splitGroup?_recasts recasts]
    cases splitGroup? 0 rest <;> simp [Cut.map]
  | loop | forever | otherwise =>
    simp [Line.Kind.renumber, recasts.indent, body_recasts recasts mono here all,
      after_recasts recasts mono here all, Cut.map]
  | closing | single => simp [Line.Kind.renumber, Cut.map]

theorem stmt_recasts (l : Line) (inside : List Stmt) (marked : Bool) (otherwise : List Stmt) :
    (h l).stmt (renumberAll f inside) marked (renumberAll f otherwise) =
      (l.stmt inside marked otherwise).renumber f := by
  unfold Line.stmt
  rw [recasts.kind, recasts.number]
  cases l.kind with
  | branch condition => cases marked <;> rfl
  | _ => rfl

/-- It is enough that the indents of the lines at hand keep their order. -/
theorem parse_recasts_of_strictMonoOn {S : Set Nat} (mono : StrictMonoOn g S) (lines : List Line)
    (all : ∀ l ∈ lines, l.indent ∈ S) : parse (lines.map h) = renumberAll f (parse lines) := by
  match lines with
  | [] => simp [parse, renumberAll]
  | l :: rest =>
    obtain ⟨here, below⟩ := List.forall_mem_cons.1 all
    have := length_cut l rest
    have part (lines : List Line) (subset : lines ⊆ rest) (shorter : lines.length ≤ rest.length) :
        parse (lines.map h) = renumberAll f (parse lines) :=
      parse_recasts_of_strictMonoOn mono lines fun m member => below m (subset member)
    obtain ⟨inside, otherwise, next⟩ := cut_subset l rest
    rw [List.map_cons, parse_cons, parse_cons, cut_recasts recasts mono here below]
    simp only [Cut.map, Option.isSome_map, part _ inside (by omega), part _ otherwise (by omega),
      part _ next (by omega), stmt_recasts recasts, renumberAll]
termination_by lines.length
decreasing_by simp only [List.length_cons]; omega

theorem parse_recasts (mono : StrictMono g) (lines : List Line) :
    parse (lines.map h) = renumberAll f (parse lines) :=
  parse_recasts_of_strictMonoOn recasts (mono.strictMonoOn Set.univ) lines fun _ _ => trivial

end Recasts

/-- Recasting keeps the tree, but for the numbers. -/
theorem parse_recast {f g : Nat → Nat} (mono : StrictMono g) (lines : List Line) :
    parse (lines.map (Line.recast f g)) = renumberAll f (parse lines) :=
  parse_recasts (recasts_recast f g) mono lines

end Block

end RobotScript
