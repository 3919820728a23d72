import RobotScript.Proofs.Script.Cursor

/-!
# Histories of a source

A source may be read, moved about, rewound and given another text in any order.
`readings_after_history` shows that none of this harms it: the cursor stays within the lines, each
reading finds the next line that is not a comment, and after a rewinding the readings go through
the whole text again.
-/

namespace RobotScript.Source

inductive Call where
  | next
  | jump (line : Nat)
  | rewind
  | replace (text : String)

def after (s : Source) : Call → Source
  | .next => s.next.2
  | .jump line => s.jump line
  | .rewind => s.rewind
  | .replace text => ofText text

def run (s : Source) (calls : List Call) : Source := calls.foldl after s

/-- The lines in force after some calls are those of the text put in last. -/
def linesAfter (lines : List String) (calls : List Call) : List String :=
  calls.foldl (fun lines call => match call with
    | .replace text => splitLines text
    | _ => lines) lines

/-- The line at index `i` is the first one from the cursor on that is not a comment. -/
structure Ahead (s : Source) (i : Nat) (line : String) : Prop where
  reached : s.cursor ≤ i
  present : s.lines[i]? = some line
  plain : isComment line = false
  first : ∀ j l, s.cursor ≤ j → j < i → s.lines[j]? = some l → isComment l = true

/-! ### One reading -/

section Reading

variable {s s' : Source} {text line line' : String} {i i' : Nat}

theorem Ahead.unique (found : s.Ahead i line) (other : s.Ahead i' line') :
    i = i' ∧ line = line' := by
  have place : i = i' := by
    rcases Nat.lt_trichotomy i i' with less | same | less
    · have comment := other.first i line found.reached less found.present
      exact absurd comment (by simp [found.plain])
    · exact same
    · have comment := found.first i' line' other.reached less other.present
      exact absurd comment (by simp [other.plain])
  subst place
  exact ⟨rfl, Option.some.inj (found.present.symm.trans other.present)⟩

theorem ahead_of_next (read : s.next = (some text, s')) :
    ∃ i line, s.Ahead i line ∧ text = content line ∧ s' = { s with cursor := i + 1 } := by
  unfold next at read
  split at read
  · rename_i line n found
    cases read
    obtain ⟨skipped, rest, left, comments, plain, rfl⟩ := seek_eq_some found
    have place (j : Nat) : s.lines[s.cursor + j]? = (skipped ++ line :: rest)[j]? := by
      rw [← left, List.getElem?_drop]
    refine ⟨s.cursor + skipped.length, line, ⟨by omega, ?_, plain, ?_⟩, rfl, rfl⟩
    · rw [place, List.getElem?_append_right (Nat.le_refl _), Nat.sub_self]
      rfl
    · intro j l reached less present
      obtain ⟨k, rfl⟩ := Nat.exists_eq_add_of_le reached
      rw [place, List.getElem?_append_left (by omega)] at present
      exact comments l (List.mem_of_getElem? present)
  · cases read

theorem comments_of_next (read : s.next = (none, s')) :
    (∀ j l, s.cursor ≤ j → s.lines[j]? = some l → isComment l = true) ∧ s' = s.exhaust := by
  unfold next at read
  split at read
  · cases read
  · rename_i nothing
    cases read
    refine ⟨fun j l reached present => seek_eq_none nothing l ?_, rfl⟩
    obtain ⟨k, rfl⟩ := Nat.exists_eq_add_of_le reached
    rw [← List.getElem?_drop] at present
    exact List.mem_of_getElem? present

theorem next_eq_some_iff : s.next = (some text, s') ↔
    ∃ i line, s.Ahead i line ∧ text = content line ∧ s' = { s with cursor := i + 1 } := by
  refine ⟨ahead_of_next, ?_⟩
  rintro ⟨i, line, found, rfl, rfl⟩
  match read : s.next with
  | (some _, _) =>
    obtain ⟨i', line', other, rfl, rfl⟩ := ahead_of_next read
    obtain ⟨rfl, rfl⟩ := found.unique other
    rfl
  | (none, _) =>
    have comment := (comments_of_next read).1 i line found.reached found.present
    exact absurd comment (by simp [found.plain])

theorem next_eq_none_iff : s.next = (none, s') ↔
    (∀ j l, s.cursor ≤ j → s.lines[j]? = some l → isComment l = true) ∧ s' = s.exhaust := by
  refine ⟨comments_of_next, ?_⟩
  rintro ⟨comments, rfl⟩
  match read : s.next with
  | (some _, _) =>
    obtain ⟨i, line, found, -, -⟩ := ahead_of_next read
    exact absurd (comments i line found.reached found.present) (by simp [found.plain])
  | (none, _) =>
    obtain ⟨-, rfl⟩ := comments_of_next read
    rfl

end Reading

/-! ### Many calls -/

/-- No call but a replacement changes the lines, and none moves the cursor beyond them. -/
theorem after_within (s : Source) (call : Call) :
    (s.after call).lines = linesAfter s.lines [call] ∧
      (s.after call).cursor ≤ (s.after call).lines.length := by
  cases call with
  | next =>
    show s.next.2.lines = s.lines ∧ s.next.2.cursor ≤ s.next.2.lines.length
    match read : s.next with
    | (none, _) =>
      obtain ⟨-, rfl⟩ := next_eq_none read
      exact ⟨rfl, Nat.le_refl _⟩
    | (some _, _) =>
      obtain ⟨-, same, -, inside⟩ := next_eq_some read
      exact ⟨same, same ▸ inside⟩
  | jump line => exact ⟨rfl, Nat.min_le_right _ _⟩
  | rewind => exact ⟨rfl, Nat.zero_le _⟩
  | replace text => exact ⟨rfl, Nat.zero_le _⟩

theorem run_within {s : Source} (within : s.cursor ≤ s.lines.length) (calls : List Call) :
    (s.run calls).lines = linesAfter s.lines calls ∧
      (s.run calls).cursor ≤ (s.run calls).lines.length := by
  induction calls generalizing s with
  | nil => exact ⟨rfl, within⟩
  | cons call calls ih =>
    obtain ⟨lines, inside⟩ := after_within s call
    obtain ⟨lines', inside'⟩ := ih inside
    refine ⟨?_, inside'⟩
    rw [lines] at lines'
    exact lines'

/-- Readings use up what remains, one line each, and find nothing after that. -/
theorem next_after_readings (s : Source) (n : Nat) :
    (s.run (List.replicate n .next)).next = match s.remaining[n]? with
      | some (number, text) => (some text, { s with cursor := number })
      | none => (none, s.exhaust) := by
  induction n generalizing s with
  | zero =>
    show s.next = _
    match read : s.next with
    | (none, _) =>
      obtain ⟨nothing, rfl⟩ := next_eq_none read
      rw [nothing]
      rfl
    | (some _, s') =>
      obtain ⟨left, same, -, -⟩ := next_eq_some read
      rw [left, ← same]
      rfl
  | succ n ih =>
    show (s.next.2.run (List.replicate n .next)).next = _
    rw [ih]
    match read : s.next with
    | (none, _) =>
      obtain ⟨nothing, rfl⟩ := next_eq_none read
      have still : s.exhaust.remaining = [] := by simp [remaining, exhaust, numberedFrom]
      rw [nothing, still]
      rfl
    | (some _, s') =>
      obtain ⟨left, same, -, -⟩ := next_eq_some read
      rw [left, List.getElem?_cons_succ, ← same, exhaust, exhaust, same]

/-- After any history, a reading gives the first line from the cursor on that is not a comment, or
none if there are only comments left. A rewinding starts all over: the readings after it give the
lines that are not comments, each with its number, and then nothing any more. -/
theorem readings_after_history (lines : List String) (calls : List Call) :
    let s := (ofLines lines).run calls
    s.lines = linesAfter lines calls ∧ s.cursor ≤ s.lines.length ∧
      (∀ text s', s.next = (some text, s') ↔
        ∃ i line, s.Ahead i line ∧ text = content line ∧ s' = { s with cursor := i + 1 }) ∧
      (∀ s', s.next = (none, s') ↔
        (∀ j l, s.cursor ≤ j → s.lines[j]? = some l → isComment l = true) ∧
          s' = { s with cursor := s.lines.length }) ∧
      ∀ n, (s.run (.rewind :: List.replicate n .next)).next = match s.numbered[n]? with
        | some (number, text) => (some text, { s with cursor := number })
        | none => (none, { s with cursor := s.lines.length }) := by
  intro s
  obtain ⟨inForce, within⟩ := run_within (s := ofLines lines) (Nat.zero_le _) calls
  exact ⟨inForce, within, fun _ _ => next_eq_some_iff, fun _ => next_eq_none_iff,
    next_after_readings s.rewind⟩

end RobotScript.Source
