import RobotScript.Script.Source

/-!
# The cursor of a source

Reading a source line by line, from its start to its end, gives each of its lines that is not a
comment once, with its own number.
-/

namespace RobotScript.Source

theorem seek_eq_none {lines : List String} {n : Nat} (nothing : seek lines n = none) :
    ∀ l ∈ lines, isComment l = true := by
  fun_induction seek lines n with
  | case1 => simp
  | case2 line lines n comment ih =>
    simp only [List.forall_mem_cons]
    exact ⟨comment, ih nothing⟩
  | case3 => cases nothing

theorem seek_eq_some {lines : List String} {n m : Nat} {line : String}
    (found : seek lines n = some (line, m)) :
    ∃ skipped rest, lines = skipped ++ line :: rest ∧ (∀ l ∈ skipped, isComment l = true) ∧
      isComment line = false ∧ m = n + skipped.length + 1 := by
  fun_induction seek lines n with
  | case1 => cases found
  | case2 first lines n comment ih =>
    obtain ⟨skipped, rest, rfl, comments, plain, rfl⟩ := ih found
    refine ⟨first :: skipped, rest, rfl, ?_, plain, ?_⟩
    · simp only [List.forall_mem_cons]
      exact ⟨comment, comments⟩
    · rw [List.length_cons]
      omega
  | case3 first lines n plain =>
    cases found
    exact ⟨[], lines, rfl, by simp, by simpa using plain, rfl⟩

/-- What is left of `lines` without the comments, when `n` lines precede. -/
def numberedFrom (n : Nat) (lines : List String) : List (Nat × String) :=
  (lines.zipIdx (n + 1)).filterMap fun (line, n) =>
    if isComment line then none else some (n, content line)

/-- What is still to be read. -/
def remaining (s : Source) : List (Nat × String) := numberedFrom s.cursor (s.lines.drop s.cursor)

theorem numberedFrom_append (n : Nat) (before after : List String) :
    numberedFrom n (before ++ after) =
      numberedFrom n before ++ numberedFrom (n + before.length) after := by
  rw [numberedFrom, List.zipIdx_append, List.filterMap_append,
    show n + 1 + before.length = n + before.length + 1 by omega]
  rfl

theorem numberedFrom_comments {lines : List String} (n : Nat)
    (comments : ∀ l ∈ lines, isComment l = true) : numberedFrom n lines = [] := by
  rw [numberedFrom, List.filterMap_eq_nil_iff]
  rintro ⟨line, m⟩ member
  exact if_pos (comments line (List.fst_mem_of_mem_zipIdx member))

section Next

variable {s s' : Source} {text : String}

theorem next_eq_none (read : s.next = (none, s')) : s.remaining = [] ∧ s' = s.exhaust := by
  unfold next at read
  split at read
  · cases read
  · rename_i nothing
    cases read
    exact ⟨numberedFrom_comments _ (seek_eq_none nothing), rfl⟩

theorem next_eq_some (read : s.next = (some text, s')) :
    s.remaining = (s'.cursor, text) :: s'.remaining ∧ s'.lines = s.lines ∧
      s.cursor < s'.cursor ∧ s'.cursor ≤ s.lines.length := by
  unfold next at read
  split at read
  · rename_i line n found
    cases read
    obtain ⟨skipped, rest, left, comments, plain, rfl⟩ := seek_eq_some found
    have inside : s.cursor + skipped.length + 1 ≤ s.lines.length := by
      have size := congrArg List.length left
      simp only [List.length_drop, List.length_append, List.length_cons] at size
      omega
    have later : s.lines.drop (s.cursor + skipped.length + 1) = rest := by
      rw [show s.cursor + skipped.length + 1 = s.cursor + (skipped.length + 1) by omega,
        ← List.drop_drop, left, List.drop_length_add_append]
      rfl
    have further : s.cursor < s.cursor + skipped.length + 1 := by omega
    refine ⟨?_, rfl, further, inside⟩
    rw [remaining, left, numberedFrom_append, numberedFrom_comments _ comments]
    simp [remaining, later, numberedFrom, plain]
  · cases read

end Next

/-- Reading line by line from `s` on gives the lines of the list, each with the cursor after it as
its number, and ends in the second source. -/
inductive Reads : Source → List (Nat × String) → Source → Prop
  | stop {s s'} (read : s.next = (none, s')) : Reads s [] s'
  | line {s s' s'' text rest} (read : s.next = (some text, s')) (more : Reads s' rest s'') :
    Reads s ((s'.cursor, text) :: rest) s''

theorem reads_remaining (s : Source) : s.Reads s.remaining s.exhaust := by
  match read : s.next with
  | (none, s') =>
    obtain ⟨nothing, rfl⟩ := next_eq_none read
    rw [nothing]
    exact .stop read
  | (some text, s') =>
    obtain ⟨left, same, further, inside⟩ := next_eq_some read
    have more := reads_remaining s'
    rw [exhaust, same] at more
    rw [left]
    exact .line read more
termination_by s.lines.length - s.cursor
decreasing_by
  rw [same]
  omega

theorem reads_numbered (s : Source) : s.rewind.Reads s.numbered s.exhaust :=
  reads_remaining s.rewind

end RobotScript.Source
