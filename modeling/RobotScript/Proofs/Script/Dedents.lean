import RobotScript.Proofs.Script.Slices

/-!
# Dedents

A line no deeper than any line before it ends every block that is open there. Unless it is an `else`,
the lines before it and the lines from it on are parsed apart, so a change to either part leaves the
statements of the other as they were.
-/

namespace RobotScript

open Block

/-- `later` starts no deeper than any of `lines` and not with an `else`, and no group is opened in
`lines`. -/
structure StartsAfresh (lines later : List Line) : Prop where
  plain : ∀ l ∈ lines, l.isBegin = false
  level : ∀ b ∈ later.head?, ∀ l ∈ lines, b.indent ≤ l.indent
  word : ∀ b ∈ later.head?, b.isElse = false

instance (lines later : List Line) : Decidable (StartsAfresh lines later) :=
  decidable_of_iff ((∀ l ∈ lines, l.isBegin = false) ∧
      (∀ b ∈ later.head?, ∀ l ∈ lines, b.indent ≤ l.indent) ∧
      ∀ b ∈ later.head?, b.isElse = false)
    ⟨fun ⟨plain, level, word⟩ => ⟨plain, level, word⟩,
      fun fresh => ⟨fresh.plain, fresh.level, fresh.word⟩⟩

section Cut

variable {indent : Nat} {l : Line} {lines rest later : List Line}

theorem after_append (ends : ∀ b ∈ later.head?, b.indent ≤ indent) :
    after indent (lines ++ later) = after indent lines ++ later := by
  have parts : body indent lines ++ after indent (lines ++ later) =
      body indent lines ++ (after indent lines ++ later) := by
    calc body indent lines ++ after indent (lines ++ later)
        = body indent (lines ++ later) ++ after indent (lines ++ later) := by rw [body_append ends]
      _ = lines ++ later := body_append_after indent (lines ++ later)
      _ = body indent lines ++ (after indent lines ++ later) := by
        rw [← List.append_assoc, body_append_after]
  exact List.append_cancel_left parts

theorem elseBranch?_append (ends : ∀ b ∈ later.head?, b.indent ≤ indent)
    (word : ∀ b ∈ later.head?, b.isElse = false) :
    elseBranch? indent (lines ++ later) =
      (elseBranch? indent lines).map fun (inside, next) => (inside, next ++ later) := by
  cases lines with
  | nil =>
    cases later with
    | nil => rfl
    | cons b later => simp [elseBranch?, word b rfl]
  | cons l lines =>
    simp only [List.cons_append, elseBranch?, body_append ends, after_append ends]
    split <;> rfl

/-- What starts afresh after a statement only comes after it. -/
theorem cut_append (plain : l.isBegin = false) (ends : ∀ b ∈ later.head?, b.indent ≤ l.indent)
    (word : ∀ b ∈ later.head?, b.isElse = false) :
    cut l (rest ++ later) = { cut l rest with next := (cut l rest).next ++ later } := by
  unfold cut
  cases kind : l.kind with
  | branch condition =>
    simp only [body_append ends, after_append ends, elseBranch?_append ends word]
    cases found : elseBranch? l.indent (after l.indent rest) with
    | none => rfl
    | some parts =>
      obtain ⟨e, rest', here, -⟩ := elseBranch?_eq_some.1 found
      simp [here]
  | opening => exact absurd kind (kind_ne_opening plain)
  | closing | single stmt => rfl
  | _ => simp only [body_append ends, after_append ends]

theorem mem_cut_next {m : Line} (member : m ∈ (cut l rest).next) : m ∈ rest := by
  rw [cut_parts l rest]
  simp [member]

theorem StartsAfresh.cut_eq (fresh : StartsAfresh (l :: rest) later) :
    cut l (rest ++ later) = { cut l rest with next := (cut l rest).next ++ later } :=
  cut_append (fresh.plain l List.mem_cons_self)
    (fun b first => fresh.level b first l List.mem_cons_self) fresh.word

theorem StartsAfresh.next (fresh : StartsAfresh (l :: rest) later) :
    StartsAfresh (cut l rest).next later where
  plain m member := fresh.plain m (List.mem_cons_of_mem l (mem_cut_next member))
  level b first m member := fresh.level b first m (List.mem_cons_of_mem l (mem_cut_next member))
  word := fresh.word

end Cut

theorem StartsAfresh.parse_append {lines later : List Line} (fresh : StartsAfresh lines later) :
    parse (lines ++ later) = parse lines ++ parse later := by
  -- by the statements of `lines`: the parts of a cut stay, and the rest goes on into `later`
  match lines with
  | [] => simp [parse]
  | l :: rest =>
    have rest_eq := fresh.next.parse_append
    rw [List.cons_append, parse_cons, parse_cons, fresh.cut_eq, rest_eq]
    rfl
termination_by lines.length
decreasing_by
  have := length_cut l rest
  simp only [List.length_cons]
  omega

/-- Parts of a script that start afresh after each other are parsed apart. So when one of them is
replaced by another such part, the statements before and after it stay. -/
theorem edits_stay_local (part later : List Line) (fresh : StartsAfresh part later) :
    parse (part ++ later) = parse part ++ parse later ∧
      ∀ before part', StartsAfresh before (part ++ later) → StartsAfresh before (part' ++ later) →
        StartsAfresh part' later →
          parse (before ++ (part ++ later)) = parse before ++ (parse part ++ parse later) ∧
          parse (before ++ (part' ++ later)) = parse before ++ (parse part' ++ parse later) := by
  refine ⟨fresh.parse_append, ?_⟩
  intro before part' old new fresh'
  rw [old.parse_append, new.parse_append, fresh.parse_append, fresh'.parse_append]
  exact ⟨rfl, rfl⟩

/-- An `else` deeper than its `if`, a body deeper than it need be, and a loop at the end. -/
def openEnded : List Line :=
  [⟨1, 4, "if a"⟩, ⟨2, 7, "else"⟩, ⟨3, 9, "break"⟩, ⟨4, 4, "else"⟩, ⟨5, 8, "end"⟩, ⟨6, 6, "while b"⟩]

/-- A group that is never closed, at the indent of the lines before it. -/
def unclosedGroup : List Line := [⟨7, 4, "begin"⟩, ⟨8, 0, "else"⟩, ⟨9, 5, "print"⟩]

/-- One line stands in for six, and the group is parsed as before. -/
theorem edits_stay_local_openEnded :
    StartsAfresh openEnded unclosedGroup ∧
      parse (openEnded ++ unclosedGroup) = parse openEnded ++ parse unclosedGroup ∧
      parse ([⟨0, 5, "print 1"⟩] ++ ([⟨1, 4, "forever"⟩] ++ unclosedGroup)) =
        parse [⟨0, 5, "print 1"⟩] ++ (parse [⟨1, 4, "forever"⟩] ++ parse unclosedGroup) := by
  have fresh : StartsAfresh openEnded unclosedGroup := by decide
  obtain ⟨apart, replaced⟩ := edits_stay_local openEnded unclosedGroup fresh
  refine ⟨fresh, apart, ?_⟩
  exact (replaced [⟨0, 5, "print 1"⟩] [⟨1, 4, "forever"⟩] (by decide) (by decide) (by decide)).2

end RobotScript
