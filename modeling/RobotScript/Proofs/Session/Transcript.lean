import Mathlib.Data.List.DropRight
import Mathlib.Data.List.Nodup
import RobotScript.Session.Console

/-!
# The transcript of a console

Robots share one console and call it in any order. `entries` reads off a history of calls which
messages belong to each line; `lines_keep_agents_apart` shows that the console writes exactly these
lines, and that they use up every message of a robot once.
-/

namespace RobotScript.Console

inductive Call where
  | print (agent text : String)
  | println (agent text : String)

namespace Call

def agent : Call → String
  | .print agent _ | .println agent _ => agent

def text : Call → String
  | .print _ text | .println _ text => text

def endsLine : Call → Bool
  | .print .. => false
  | .println .. => true

end Call

def after (c : Console) : Call → Console
  | .print agent text => c.print agent text
  | .println agent text => c.println agent text

def run (calls : List Call) : Console := calls.foldl after empty

/-! ### What a history says -/

def said (agent : String) (calls : List Call) : List String :=
  (calls.filter (·.agent == agent)).map Call.text

/-- The messages of `agent` since its last end of line. -/
def unfinished (agent : String) (calls : List Call) : List String :=
  ((calls.filter (·.agent == agent)).rtakeWhile (!·.endsLine)).map Call.text

structure Entry where
  agent : String
  messages : List String

def Entry.text (e : Entry) : String := e.agent ++ ": " ++ String.join e.messages

/-- The line that `call` completes after the calls `before`. -/
def completed? (before : List Call) (call : Call) : Option Entry :=
  if call.endsLine then some ⟨call.agent, unfinished call.agent before ++ [call.text]⟩ else none

/-- One entry for each end of line, in the order of the calls. -/
def entries (calls : List Call) : List Entry :=
  calls.zipIdx.filterMap fun (call, i) => completed? (calls.take i) call

theorem said_concat (agent : String) (calls : List Call) (call : Call) :
    said agent (calls ++ [call]) =
      if call.agent = agent then said agent calls ++ [call.text] else said agent calls := by
  by_cases own : call.agent = agent <;> simp [said, own]

theorem unfinished_concat (agent : String) (calls : List Call) (call : Call) :
    unfinished agent (calls ++ [call]) =
      if call.agent = agent then
        if call.endsLine then [] else unfinished agent calls ++ [call.text]
      else unfinished agent calls := by
  by_cases own : call.agent = agent
  · cases ends : call.endsLine <;> simp [unfinished, own, ends]
  · simp [unfinished, own]

theorem entries_concat (calls : List Call) (call : Call) :
    entries (calls ++ [call]) = entries calls ++ (completed? calls call).toList := by
  have earlier : calls.zipIdx.filterMap (fun (c, i) => completed? ((calls ++ [call]).take i) c) =
      entries calls := by
    apply List.filterMap_congr
    rintro ⟨c, i⟩ member
    have within := (List.mem_zipIdx member).2.1
    have same : (calls ++ [call]).take i = calls.take i :=
      List.take_append_of_le_length (by omega)
    exact congrArg (completed? · c) same
  unfold entries at earlier ⊢
  rw [List.zipIdx_append, List.filterMap_append, earlier]
  cases line : completed? calls call <;> simp [line]

/-- A robot's lines and what it has not finished use up its messages. -/
theorem entries_exhaust (agent : String) (calls : List Call) :
    ((entries calls).filter (·.agent == agent)).flatMap Entry.messages ++ unfinished agent calls =
      said agent calls := by
  induction calls using List.reverseRecOn with
  | nil => rfl
  | append_singleton calls call ih =>
    rw [entries_concat, unfinished_concat, said_concat, List.filter_append, List.flatMap_append]
    by_cases own : call.agent = agent
    · cases ends : call.endsLine <;> simp [completed?, ends, own, ← ih]
    · cases ends : call.endsLine <;> simp [completed?, ends, own, ih]

/-! ### What the console holds back -/

section Held

variable {agent name : String} {held : List (String × String)}

theorem take_own (text : String) (held : List (String × String)) :
    take agent ((agent, text) :: held) = (text, held) := by
  simp [take]

theorem take_other (different : name ≠ agent) (text : String) (held : List (String × String)) :
    take agent ((name, text) :: held) =
      ((take agent held).1, (name, text) :: (take agent held).2) := by
  simp [take, different]

theorem take_extend_own (agent text : String) (held : List (String × String)) :
    (take agent (extend agent text held)).1 = (take agent held).1 ++ text := by
  fun_induction extend agent text held with
  | case1 => simp [take]
  | case2 name before rest found =>
    obtain rfl := eq_of_beq found
    rw [take_own, take_own]
  | case3 name before rest missed ih =>
    have different : name ≠ agent := by simpa using missed
    rw [take_other different, take_other different, ih]

theorem take_extend_other (different : name ≠ agent) (text : String)
    (held : List (String × String)) :
    (take agent (extend name text held)).1 = (take agent held).1 := by
  fun_induction extend name text held with
  | case1 => simp [take, different]
  | case2 owner before rest found =>
    obtain rfl := eq_of_beq found
    rw [take_other different, take_other different]
  | case3 owner before rest missed ih =>
    by_cases own : owner = agent
    · subst own
      rw [take_own, take_own]
    · rw [take_other own, take_other own, ih]

theorem names_extend (agent text : String) (held : List (String × String)) :
    (extend agent text held).map Prod.fst =
      if agent ∈ held.map Prod.fst then held.map Prod.fst else held.map Prod.fst ++ [agent] := by
  fun_induction extend agent text held with
  | case1 => simp
  | case2 name before rest found =>
    obtain rfl := eq_of_beq found
    simp
  | case3 name before rest missed ih =>
    have different : name ≠ agent := by simpa using missed
    simp only [List.map_cons, ih, List.mem_cons, Ne.symm different, false_or]
    split <;> rfl

theorem names_take (agent : String) (held : List (String × String)) :
    (take agent held).2.map Prod.fst = (held.map Prod.fst).erase agent := by
  induction held with
  | nil => rfl
  | cons entry held ih =>
    obtain ⟨name, text⟩ := entry
    by_cases own : name = agent
    · subst own
      simp [take_own]
    · simp [take_other own, List.erase_cons_tail, own, ih]

theorem take_absent (absent : agent ∉ held.map Prod.fst) : (take agent held).1 = "" := by
  induction held with
  | nil => rfl
  | cons entry held ih =>
    obtain ⟨name, text⟩ := entry
    simp only [List.map_cons, List.mem_cons, not_or] at absent
    rw [take_other (Ne.symm absent.1)]
    exact ih absent.2

theorem take_taken_other (different : name ≠ agent) (held : List (String × String)) :
    (take agent (take name held).2).1 = (take agent held).1 := by
  induction held with
  | nil => rfl
  | cons entry held ih =>
    obtain ⟨owner, text⟩ := entry
    by_cases taken : owner = name
    · subst taken
      rw [take_own, take_other different]
    · rw [take_other taken]
      by_cases own : owner = agent
      · subst own
        rw [take_own, take_own]
      · rw [take_other own, take_other own, ih]

end Held

/-! ### Runs -/

/-- The console stands where the calls have led it. A robot's text is held in one place, so that
taking it leaves nothing behind. -/
structure Follows (c : Console) (calls : List Call) : Prop where
  distinct : (c.pending.map Prod.fst).Nodup
  pending (agent : String) : (take agent c.pending).1 = String.join (unfinished agent calls)
  lines : c.lines = (entries calls).map Entry.text

variable {c : Console} {calls : List Call}

theorem Follows.print (follows : Follows c calls) (agent text : String) :
    Follows (c.print agent text) (calls ++ [.print agent text]) where
  distinct := by
    simp only [Console.print, names_extend]
    split
    · exact follows.distinct
    · rename_i absent
      exact follows.distinct.append (List.nodup_singleton agent) (by simpa using absent)
  pending other := by
    rw [unfinished_concat]
    by_cases own : agent = other
    · subst own
      simp [Console.print, Call.agent, Call.endsLine, Call.text, take_extend_own, follows.pending]
    · simp [Console.print, Call.agent, own, take_extend_other own, follows.pending]
  lines := by
    simp [Console.print, entries_concat, completed?, Call.endsLine, follows.lines]

theorem Follows.println (follows : Follows c calls) (agent text : String) :
    Follows (c.println agent text) (calls ++ [.println agent text]) where
  distinct := by
    simp only [Console.println, names_take]
    exact follows.distinct.erase agent
  pending other := by
    rw [unfinished_concat]
    by_cases own : agent = other
    · subst own
      have absent : agent ∉ (take agent c.pending).2.map Prod.fst := by
        rw [names_take]
        exact follows.distinct.not_mem_erase
      simp [Console.println, Call.agent, Call.endsLine, take_absent absent]
    · simp [Console.println, Call.agent, own, take_taken_other own, follows.pending]
  lines := by
    simp [Console.println, entries_concat, completed?, Call.endsLine, Call.agent, Call.text,
      Entry.text, follows.lines, follows.pending, String.append_assoc]

theorem Follows.after (follows : Follows c calls) (call : Call) :
    Follows (c.after call) (calls ++ [call]) := by
  cases call with
  | print agent text => exact follows.print agent text
  | println agent text => exact follows.println agent text

theorem follows_run (calls : List Call) : Follows (run calls) calls := by
  induction calls using List.reverseRecOn with
  | nil => exact ⟨List.nodup_nil, fun _ => rfl, rfl⟩
  | append_singleton calls call ih =>
    rw [run, List.foldl_concat]
    exact ih.after call

/-- Each end of line completes one line, of the robot's own messages since its previous end of line.
What a robot has not finished is held for it; with its lines this holds its messages in order, each
of them once. -/
theorem lines_keep_agents_apart (calls : List Call) :
    (run calls).lines = (entries calls).map Entry.text ∧
    ∀ agent, (take agent (run calls).pending).1 = String.join (unfinished agent calls) ∧
      ((entries calls).filter (·.agent == agent)).flatMap Entry.messages ++
        unfinished agent calls = said agent calls := by
  have follows := follows_run calls
  exact ⟨follows.lines, fun agent => ⟨follows.pending agent, entries_exhaust agent calls⟩⟩

end RobotScript.Console
