import RobotScript.Proofs.Expr.Lexemes
import RobotScript.Proofs.Expr.Reading
import RobotScript.Session.Basic

/-!
# Reading what was assigned

`set` takes any identifier for a name. Expressions read seven of these as words of their own, so a
value assigned to one of them is kept but cannot be read; by any other name it can be.
-/

namespace RobotScript

open Grammar

variable {line : Nat} {rest : List Char} {name : String} {e : Expr} {v : Value}

/-! ### Names as expressions -/

theorem isIdentifier_of_ofSet (assigns : Stmt.ofSet line rest = .set line name e) :
    isIdentifier name.toList = true := by
  unfold Stmt.ofSet at assigns
  split at assigns
  · cases assigns
  · dsimp only at assigns
    split at assigns
    · rename_i named
      split at assigns
      · cases assigns
        rwa [String.toList_ofList]
      · cases assigns
    · cases assigns

theorem ofSet_of_isIdentifier {before value : List Char} (first : '=' ∉ before)
    (named : isIdentifier (Text.trim before) = true) (parsed : Expr.ofText value = .ok e)
    (line : Nat) :
    Stmt.ofSet line (before ++ '=' :: value) =
      .set line (String.ofList (Text.trim before)) e := by
  obtain ⟨later, earlier⟩ := dropWhile_quote (r := value) first
  simp [Stmt.ofSet, later, earlier, named, parsed]

/-- An identifier is one lexeme, as both are made of the same characters. -/
theorem scan_of_isIdentifier (named : isIdentifier name.toList = true) :
    Token.scan name.toList = .ok [.name name] := by
  have text := String.ofList_toList (s := name)
  revert named text
  cases name.toList with
  | nil => simp [isIdentifier]
  | cons c cs =>
    intro named text
    simp only [isIdentifier, Bool.and_eq_true, List.all_eq_true] at named
    obtain ⟨starts, all⟩ := named
    have run : MaximalRun isNameChar (c :: cs) [] :=
      .cons (isNameStart_isNameChar starts) ⟨all, by simp⟩
    have lexed := @Lexed.lexeme [] _ _ _ _ (by simp) (.name starts run) (.blanks (by simp))
    rw [text] at lexed
    simpa using scan_of_lexed lexed

theorem derives_nonempty {n : Nat} {rule : Rule} {ts : List Token} (derives : Derives n rule ts e) :
    1 ≤ ts.length := by
  obtain ⟨t, us, rfl, -⟩ := derives_starts derives
  simp

/-- A token alone is an atom, as every other rule asks for more tokens or is passed through. -/
theorem derives_atom_of_single {n : Nat} {rule : Rule} {ts : List Token} {e : Expr} :
    Derives n rule ts e → ts.length = 1 → Derives n .atom ts e
  | .orFirst part | .andFirst part | .notPlain part | .compareFirst part | .sumFirst part
  | .termFirst part | .unaryPlain part | .powerBase part => derives_atom_of_single part
  | .orNext left right | .andNext left right | .sumNext _ left right | .termNext _ left right
  | .powerExponent left right => by
    have := derives_nonempty left
    have := derives_nonempty right
    simp only [List.length_append, List.length_cons]
    omega
  | .notWord operand | .unarySign _ operand => by
    have := derives_nonempty operand
    simp only [List.length_cons]
    omega
  | .compareChain first chain => by
    have := derives_nonempty first
    cases chain
    simp only [List.length_append, List.length_cons]
    omega
  | .int => fun _ => .int
  | .float => fun _ => .float
  | .text => fun _ => .text
  | .sensor => fun _ => .sensor
  | .trueWord word => fun _ => .trueWord word
  | .falseWord word => fun _ => .falseWord word
  | .freeName free => fun _ => .freeName free
  | .bracket inside => fun _ => .bracket inside

theorem ofText_eq_ok_iff_ofName (named : isIdentifier name.toList = true) :
    Expr.ofText name.toList = .ok e ↔ ofName name = .ok e := by
  rw [ofText_eq_ok, scan_of_isIdentifier named]
  constructor
  · rintro ⟨ts, scanned, derives⟩
    cases scanned
    exact ofName_of_derives (derives_atom_of_single derives rfl)
  · intro known
    have atom : Derives maxNesting .atom [.name name] e := derives_of_ofName known
    exact ⟨_, rfl, .orFirst (.andFirst (.notPlain (.compareFirst (.sumFirst (.termFirst
      (.unaryPlain (.powerBase atom)))))))⟩

theorem ofName_eq_variable_iff :
    ofName name = .ok (.variable name) ↔ name ∉ trueWords ++ falseWords ++ reserved := by
  constructor
  · intro known
    have derives : Derives 0 .atom [.name name] (.variable name) := derives_of_ofName known
    cases derives with
    | freeName free => exact free
  · intro free
    exact ofName_of_derives (n := 0) (.freeName free)

/-! ### Sessions -/

/-- Evaluating `name` as an expression gives `v`. -/
def Session.Reads (s : Session) (name : String) (v : Value) : Prop :=
  ∃ e, Expr.ofText name.toList = .ok e ∧ (s.evaluate e).1 = .ok v

theorem Session.evaluate_literal (s : Session) (v : Value) :
    s.evaluate (.literal v) = (.ok v, s) := rfl

theorem Session.evaluate_assigned (s : Session) (name : String) (v : Value) :
    (s.assign name v).evaluate (.variable name) = (.ok v, s.assign name v) := by
  have found : (s.assign name v).environment.lookup name = some v := by
    simp [assign, environment, Variables.get?_set]
  simp [evaluate, Expr.eval, Evaluation.ofExcept, found]

theorem Run.execute_set {r : Run} {s : Session} (evaluated : r.session.evaluate e = (.ok v, s))
    (line : Nat) (name : String) (frames : List Frame) :
    Run.host.execute (.set line name e) frames r =
      (frames, { r with session := s.assign name v }) := by
  simp [Host.execute, Host.value?, Run.host, Run.evaluate, evaluated, Run.assign]

/-- After an assignment a name reads as the value assigned exactly if it is no word of expressions,
or the word for this very value. -/
theorem reads_assigned_iff (named : isIdentifier name.toList = true) (s : Session) :
    (s.assign name v).Reads name v ↔ name ∉ trueWords ++ falseWords ++ reserved ∨
      name ∈ trueWords ∧ v = .bool true ∨ name ∈ falseWords ∧ v = .bool false := by
  unfold Session.Reads
  simp only [ofText_eq_ok_iff_ofName named]
  by_cases free : name ∉ trueWords ++ falseWords ++ reserved
  · have back : ((s.assign name v).evaluate (.variable name)).1 = .ok v := by
      rw [Session.evaluate_assigned]
    exact ⟨fun _ => .inl free, fun _ => ⟨_, ofName_eq_variable_iff.2 free, back⟩⟩
  · rw [not_not] at free
    simp only [trueWords, falseWords, reserved, List.mem_append, List.mem_cons, List.not_mem_nil,
      or_false] at free
    -- each of the words by itself: what it stands for, if anything, does not depend on `s`
    rcases free with ((rfl | rfl) | rfl | rfl) | rfl | rfl | rfl <;>
      simp [ofName, Session.evaluate_literal, trueWords, falseWords, reserved, eq_comm]

/-- A name that `set` accepts is read as a variable exactly if it is none of the seven words of
expressions. Where the statement succeeds the value is kept, and the name reads as this value
exactly if it is none of these words, or the one for this very value. -/
theorem assigned_reads_back_iff (line : Nat) (rest : List Char) (name : String) (e : Expr)
    (assigns : Stmt.ofSet line rest = .set line name e) :
    (Expr.ofText name.toList = .ok (.variable name) ↔
      name ∉ trueWords ++ falseWords ++ reserved) ∧
    ∀ (frames : List Frame) (r : Run) (v : Value) (s : Session),
      r.session.evaluate e = (.ok v, s) →
      ∃ after, Run.host.execute (.set line name e) frames r = (frames, after) ∧
        after.session.vars.get? name = some v ∧
        (after.session.Reads name v ↔ name ∉ trueWords ++ falseWords ++ reserved ∨
          name ∈ trueWords ∧ v = .bool true ∨ name ∈ falseWords ∧ v = .bool false) := by
  have named := isIdentifier_of_ofSet assigns
  constructor
  · rw [ofText_eq_ok_iff_ofName named, ofName_eq_variable_iff]
  · intro frames r v s evaluated
    refine ⟨_, Run.execute_set evaluated line name frames, ?_, reads_assigned_iff named s⟩
    simp [Session.assign, Variables.get?_set]

theorem assigned_reads_back_iff_fast :
    Stmt.ofSet 3 " fast=True".toList = .set 3 "fast" (.literal (.bool true)) ∧
    Expr.ofText "fast".toList = .ok (.variable "fast") ∧
    ∀ (frames : List Frame) (r : Run), ∃ after,
      Run.host.execute (.set 3 "fast" (.literal (.bool true))) frames r = (frames, after) ∧
        after.session.Reads "fast" (.bool true) := by
  have value : Expr.ofText "True".toList = .ok (.literal (.bool true)) :=
    (ofText_eq_ok_iff_ofName (by decide)).2 rfl
  have assigns : Stmt.ofSet 3 " fast=True".toList = .set 3 "fast" (.literal (.bool true)) :=
    @ofSet_of_isIdentifier _ " fast".toList "True".toList (by decide) (by decide) value 3
  have free : "fast" ∉ trueWords ++ falseWords ++ reserved := by decide
  obtain ⟨parses, executes⟩ := assigned_reads_back_iff _ _ _ _ assigns
  refine ⟨assigns, parses.2 free, fun frames r => ?_⟩
  obtain ⟨after, executed, -, reads⟩ :=
    executes frames r (.bool true) r.session (r.session.evaluate_literal _)
  exact ⟨after, executed, reads.2 (.inl free)⟩

/-- `set True=False` is a statement and succeeds, but `True` goes on to read as true. -/
theorem word_assigned_unread :
    Stmt.ofSet 1 " True=False".toList = .set 1 "True" (.literal (.bool false)) ∧
    Expr.ofText "True".toList = .ok (.literal (.bool true)) ∧
    ∀ (frames : List Frame) (r : Run), ∃ after,
      Run.host.execute (.set 1 "True" (.literal (.bool false))) frames r = (frames, after) ∧
        after.session.vars.get? "True" = some (.bool false) ∧
        ¬ after.session.Reads "True" (.bool false) ∧ after.session.Reads "True" (.bool true) := by
  have named : isIdentifier "True".toList = true := by decide
  have word : Expr.ofText "True".toList = .ok (.literal (.bool true)) :=
    (ofText_eq_ok_iff_ofName named).2 rfl
  have value : Expr.ofText "False".toList = .ok (.literal (.bool false)) :=
    (ofText_eq_ok_iff_ofName (by decide)).2 rfl
  have assigns : Stmt.ofSet 1 " True=False".toList = .set 1 "True" (.literal (.bool false)) :=
    @ofSet_of_isIdentifier _ " True".toList "False".toList (by decide) (by decide) value 1
  refine ⟨assigns, word, fun frames r => ?_⟩
  refine ⟨_, Run.execute_set (r.session.evaluate_literal _) 1 "True" frames, ?_, ?_, ?_⟩
  · simp [Session.assign, Variables.get?_set]
  · rw [reads_assigned_iff named]
    simp [trueWords, falseWords]
  · exact ⟨_, word, rfl⟩

end RobotScript
