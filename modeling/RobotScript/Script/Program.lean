import RobotScript.Script.Line
import RobotScript.Script.Source

/-!
# Programs

A statement owns the lines below it that are indented deeper. `if`, `else`, `while` and `forever`
take them as their body; below any other statement they just run in sequence. `begin` and `end`
bracket a group by themselves, whatever the indentation. Blank lines end nothing.
-/

namespace RobotScript

namespace Block

/-- The lines that belong to a header indented by `indent`. -/
def body (indent : Nat) (lines : List Line) : List Line :=
  lines.takeWhile (indent < ·.indent)

/-- The lines after them. -/
def after (indent : Nat) (lines : List Line) : List Line :=
  lines.dropWhile (indent < ·.indent)

/-- The branch that an `else` indented by `indent` opens right at the start of `lines`, and the
lines after it. -/
def elseBranch? (indent : Nat) : List Line → Option (List Line × List Line)
  | [] => none
  | l :: lines =>
    if l.indent == indent && l.isElse then some (body indent lines, after indent lines) else none

/-- The lines before the `end` that closes the last of `depth + 1` open groups, and those after
it. -/
def splitGroup? (depth : Nat) : List Line → Option (List Line × List Line)
  | [] => none
  | l :: lines =>
    if l.isBegin then (splitGroup? (depth + 1) lines).map fun (b, a) => (l :: b, a)
    else if l.isEnd then
      match depth with
      | 0 => some ([], lines)
      | depth + 1 => (splitGroup? depth lines).map fun (b, a) => (l :: b, a)
    else (splitGroup? depth lines).map fun (b, a) => (l :: b, a)

theorem length_body_le (indent : Nat) (lines : List Line) :
    (body indent lines).length ≤ lines.length :=
  (List.takeWhile_sublist _).length_le

theorem length_after_le (indent : Nat) (lines : List Line) :
    (after indent lines).length ≤ lines.length :=
  (List.dropWhile_sublist _).length_le

theorem length_elseBranch? {indent : Nat} {lines b a : List Line}
    (h : elseBranch? indent lines = some (b, a)) :
    b.length < lines.length ∧ a.length < lines.length := by
  cases lines with
  | nil => simp [elseBranch?] at h
  | cons l lines =>
    simp only [elseBranch?] at h
    split at h
    · simp only [Option.some.injEq, Prod.mk.injEq] at h
      obtain ⟨rfl, rfl⟩ := h
      have := length_body_le indent lines
      have := length_after_le indent lines
      simp; omega
    · simp at h

theorem length_splitGroup? {depth : Nat} {lines b a : List Line}
    (h : splitGroup? depth lines = some (b, a)) :
    b.length + a.length < lines.length := by
  induction lines generalizing depth b a with
  | nil => simp [splitGroup?] at h
  | cons l lines ih =>
    have more {d : Nat} (h : (splitGroup? d lines).map (fun (b, a) => (l :: b, a)) = some (b, a)) :
        b.length + a.length < (l :: lines).length := by
      obtain ⟨⟨b', a'⟩, h', he⟩ := Option.map_eq_some_iff.1 h
      simp only [Prod.mk.injEq] at he
      obtain ⟨rfl, rfl⟩ := he
      have := ih h'
      simp; omega
    simp only [splitGroup?] at h
    split at h
    · exact more h
    · split at h
      · split at h
        · simp only [Option.some.injEq, Prod.mk.injEq] at h
          obtain ⟨rfl, rfl⟩ := h
          simp
        · exact more h
      · exact more h

/-- The statements that a run of lines spells. -/
def parse (lines : List Line) : List Stmt :=
  match lines with
  | [] => []
  | l :: rest =>
    match l.kind with
    | .branch condition =>
      match h : elseBranch? l.indent (after l.indent rest) with
      | some (otherwise, next) =>
        have := length_elseBranch? h
        .branch l.number condition (parse (body l.indent rest)) (some (parse otherwise)) ::
          parse next
      | none =>
        .branch l.number condition (parse (body l.indent rest)) none :: parse (after l.indent rest)
    | .loop condition =>
      .loop l.number condition (parse (body l.indent rest)) :: parse (after l.indent rest)
    | .forever => .forever l.number (parse (body l.indent rest)) :: parse (after l.indent rest)
    | .otherwise => .strayElse l.number :: parse (after l.indent rest)
    | .opening =>
      match h : splitGroup? 0 rest with
      | some (inside, next) =>
        have := length_splitGroup? h
        .group l.number true (parse inside) :: parse next
      | none => [.group l.number false (parse rest)]
    | .closing => .strayEnd l.number :: parse rest
    | .single stmt => stmt :: parse rest
termination_by lines.length
decreasing_by
  all_goals
    have := length_body_le l.indent rest
    have := length_after_le l.indent rest
    simp only [List.length_cons]
    omega

end Block

structure Program where
  body : List Stmt

namespace Program

def ofLines (lines : List Line) : Program := ⟨Block.parse lines⟩

/-- The lines of a source that hold a statement. -/
def sourceLines (tabWidth : Nat) (s : Source) : List Line :=
  s.numbered.filterMap fun (number, raw) =>
    let (indent, text) := measureIndent tabWidth raw.toList
    if text.isEmpty then none else some ⟨number, indent, String.ofList text⟩

def ofSource (tabWidth : Nat) (s : Source) : Program := ofLines (sourceLines tabWidth s)

end Program

end RobotScript
