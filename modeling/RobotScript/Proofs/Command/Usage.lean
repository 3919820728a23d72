import Mathlib.Data.List.Forall2
import Mathlib.Data.List.Infix
import RobotScript.Command.Parser
import RobotScript.Proofs.Number.Values

/-!
# The usage of verbs

Behind a verb stand its own arguments and then, for some verbs, groups of words that may be left out
from the last one on. A pattern says so as data: the usage of a verb is its pattern as a text, and a
command is what the words in the places of a pattern come to.
-/

namespace RobotScript

open Text (sameWord)
open Binary (value view32)

/-! ### Patterns -/

/-- A place for a word behind a verb. -/
inductive Slot where
  | number (label : String)
  | tenths
  | keyword (word : String)

def Slot.text : Slot → String
  | .number label => "<" ++ label ++ ">"
  | .tenths => "<tenths>"
  | .keyword word => word

/-- The places for a verb's own arguments, and groups of places that may be filled after them, each
only after the one before it. -/
structure Pattern where
  own : List Slot
  more : List (List Slot)

namespace Pattern

/-- Groups are bracketed, each with those after it. -/
def bracketed : List (List Slot) → String
  | [] => ""
  | group :: groups => " [" ++ " ".intercalate (group.map Slot.text) ++ bracketed groups ++ "]"

def text (p : Pattern) : String := " ".intercalate (p.own.map Slot.text) ++ bracketed p.more

/-- The ways to fill a pattern. -/
def forms (p : Pattern) : List (List Slot) := p.more.inits.map fun groups => p.own ++ groups.flatten

theorem own_mem_forms (p : Pattern) : p.own ∈ p.forms :=
  List.mem_map.2 ⟨[], (List.mem_inits _ _).2 List.nil_prefix, List.append_nil _⟩

end Pattern

/-- When a motion is to be over, and whether to wait for it. -/
def Timing.groups : List (List Slot) := [[.keyword "INTIME", .tenths], [.keyword "BACKGROUND"]]

def Verb.pattern : Verb → Pattern
  | .move => ⟨[.number "distance"], Timing.groups⟩
  | .turn => ⟨[.number "degrees"], Timing.groups⟩
  | .arc => ⟨[.number "radius", .keyword "ANGLE", .number "degrees"], Timing.groups⟩
  | .sound => ⟨[.number "frequency"], [[.number "millis"], [.keyword "WAIT"]]⟩
  | .delay => ⟨[.tenths], []⟩
  | .pos => ⟨[.number "x", .number "y"], []⟩
  | .dir | .angle | .compass => ⟨[.number "degrees"], []⟩
  | .paint _ | .feel _ => ⟨[], []⟩

/-- Whether the verb can be given a time. -/
def Verb.isTimed : Verb → Bool
  | .move | .turn | .arc => true
  | _ => false

/-- The usage of a verb with arguments is the pattern behind a name of the verb. -/
theorem usage_eq_pattern (verb : Verb) (takes : verb.pattern.own ≠ []) :
    ∃ name, VerbTable.standard.find? name = some verb ∧
      verb.usage = name ++ " " ++ verb.pattern.text := by
  cases verb with
  | move => exact ⟨"MOVE", by decide⟩
  | turn => exact ⟨"TURN", by decide⟩
  | arc => exact ⟨"ARC", by decide⟩
  | sound => exact ⟨"SOUND", by decide⟩
  | delay => exact ⟨"DELAY", by decide⟩
  | pos => exact ⟨"POS", by decide⟩
  | dir => exact ⟨"DIR", by decide⟩
  | angle => exact ⟨"ANGLE", by decide⟩
  | compass => exact ⟨"COMPASS", by decide⟩
  | paint | feel => exact absurd rfl takes

/-! ### Commands as entries -/

/-- What a word behind a verb comes to. -/
inductive Entry where
  | number (x : Float32)
  | tenths (n : UInt32)
  | keyword

def Timing.entries : Option Timing → List Entry
  | none => []
  | some ⟨tenths, background⟩ =>
    .keyword :: .tenths tenths :: if background then [.keyword] else []

namespace Command

def verb : Command Float32 → Verb
  | .move .. => .move
  | .turn .. => .turn
  | .arc .. => .arc
  | .sound .. => .sound
  | .delay _ => .delay
  | .pos .. => .pos
  | .dir _ => .dir
  | .angle _ => .angle
  | .compass _ => .compass
  | .paint color => .paint color
  | .feel mood => .feel mood

/-- The entries behind the frequency of a tone. -/
def toneEntries (millis : Option Float32) (wait : Bool) : List Entry :=
  (millis.map .number).toList ++ if wait then [.keyword] else []

/-- What the words behind the verb of a command have come to. -/
def entries : Command Float32 → List Entry
  | .move distance timing => .number distance :: Timing.entries timing
  | .turn degrees timing => .number degrees :: Timing.entries timing
  | .arc radius degrees timing =>
    .number radius :: .keyword :: .number degrees :: Timing.entries timing
  | .sound frequency millis wait =>
    .number frequency :: toneEntries millis wait
  | .delay tenths => [.tenths tenths]
  | .pos x y => [.number x, .number y]
  | .dir degrees | .angle degrees | .compass degrees => [.number degrees]
  | .paint _ | .feel _ => []

end Command

theorem Timing.entries_inj {s t : Option Timing} : entries s = entries t ↔ s = t := by
  rcases s with _ | ⟨m, _ | _⟩ <;> rcases t with _ | ⟨n, _ | _⟩ <;> simp [entries]

theorem Command.toneEntries_inj {x y : Option Float32} {v w : Bool} :
    toneEntries x v = toneEntries y w ↔ x = y ∧ v = w := by
  cases x <;> cases y <;> cases v <;> cases w <;> simp [toneEntries]

theorem Command.ext_entries {c d : Command Float32} (verbs : c.verb = d.verb)
    (same : c.entries = d.entries) : c = d := by
  cases c <;> cases d <;> cases verbs
  all_goals simp_all [entries, Timing.entries_inj, toneEntries_inj]

/-! ### Words in their places -/

theorem map_eq_ok_iff {ε α β : Type} {x : Except ε α} {f : α → β} {b : β} :
    x.map f = .ok b ↔ ∃ a, x = .ok a ∧ f a = b := by
  cases x <;> simp [Except.map]

theorem map_eq_error_iff {ε α β : Type} {x : Except ε α} {f : α → β} {e : ε} :
    x.map f = .error e ↔ x = .error e := by
  cases x <;> simp [Except.map]

namespace Slot

/-- The word may stand in the place, if it is the number that is asked for there. -/
def Fits : Slot → String → Prop
  | .keyword word, w => sameWord w word = true
  | _, _ => True

/-- The word stands in the place and comes to the entry. A number of tenths is rounded, halves going
up, and is the greatest count if that is less. -/
inductive Reads : Slot → String → Entry → Prop
  | number {label w x} (literal : Decimal.read32? w = some x) (finite : x.isFinite = true) :
    Reads (.number label) w (.number x)
  | tenths {w x n} (literal : Decimal.read32? w = some x) (finite : x.isFinite = true)
    (low : (0.0 : Float32) ≤ x) (high : x ≤ (4294967296.0 : Float32))
    (rounded : n.toNat = min (UInt32.size - 1) ⌊value (view32 x) + 1 / 2⌋₊) :
    Reads .tenths w (.tenths n)
  | keyword {word w} (same : sameWord w word = true) : Reads (.keyword word) w .keyword

/-- The bound on tenths is the greatest count, as a number. -/
example : UInt32.toFloat32 4294967295 = 4294967296.0 := by decide +kernel

inductive ReadsAll : List Slot → List String → List Entry → Prop
  | nil : ReadsAll [] [] []
  | cons {slot w e slots ws es} (first : slot.Reads w e) (rest : ReadsAll slots ws es) :
    ReadsAll (slot :: slots) (w :: ws) (e :: es)

/-- All words may stand in their places, but the word `w` is no number that is asked for, and those
before it can be read. -/
inductive Faulty : List Slot → List String → String → Prop
  | here {slot w slots ws} (fits : slot.Fits w) (unread : ∀ e, ¬slot.Reads w e)
    (rest : List.Forall₂ Fits slots ws) : Faulty (slot :: slots) (w :: ws) w
  | later {slot v e slots ws w} (first : slot.Reads v e) (rest : Faulty slots ws w) :
    Faulty (slot :: slots) (v :: ws) w

/-! ### Reading words -/

section Read

variable {slot : Slot} {slots slots' : List Slot} {w : String} {ws ws' : List String} {x : Float32}
  {n : UInt32} {e : Entry} {es : List Entry} {fault : CommandError}

theorem number_eq_ok_iff :
    Command.number w = .ok x ↔ Decimal.read32? w = some x ∧ x.isFinite = true := by
  unfold Command.number
  cases Decimal.read32? w with
  | none => simp
  | some y =>
    simp only [Option.some.injEq]
    split
    · rename_i finite
      constructor
      · rintro ⟨⟩
        exact ⟨rfl, finite⟩
      · rintro ⟨rfl, -⟩
        rfl
    · rename_i infinite
      constructor
      · rintro ⟨⟩
      · rintro ⟨rfl, finite⟩
        exact absurd finite infinite

theorem number_error (unread : Command.number w = .error fault) : fault = .badNumber w := by
  unfold Command.number at unread
  split at unread
  · split at unread
    · cases unread
    · cases unread
      rfl
  · cases unread
    rfl

theorem in_range_iff (finite : x.isFinite = true) :
    ¬(x < 0.0 || x > 4294967296.0) = true ↔ (0.0 : Float32) ≤ x ∧ x ≤ (4294967296.0 : Float32) := by
  have number := Binary.ne_notANumber_of_isFinite finite
  have zero : view32 0.0 ≠ .notANumber :=
    Binary.ne_notANumber_of_isFinite (by decide +kernel)
  have greatest : view32 4294967296.0 ≠ .notANumber :=
    Binary.ne_notANumber_of_isFinite (by decide +kernel)
  rw [Bool.or_eq_true, decide_eq_true_iff, decide_eq_true_iff, not_or,
    Binary.not_lt_iff_le number zero, gt_iff_lt, Binary.not_lt_iff_le greatest number]

theorem tenths_eq_ok_iff :
    Command.tenths w = .ok n ↔ ∃ x, Decimal.read32? w = some x ∧ x.isFinite = true ∧
      (0.0 : Float32) ≤ x ∧ x ≤ (4294967296.0 : Float32) ∧
      n.toNat = min (UInt32.size - 1) ⌊value (view32 x) + 1 / 2⌋₊ := by
  unfold Command.tenths
  constructor
  · intro read
    cases literal : Command.number w with
    | error fault =>
      rw [literal] at read
      cases read
    | ok x =>
      obtain ⟨word, finite⟩ := number_eq_ok_iff.1 literal
      rw [literal] at read
      simp only [Except.bind] at read
      split at read
      · cases read
      · rename_i inside
        cases read
        obtain ⟨low, high⟩ := (in_range_iff finite).1 inside
        exact ⟨x, word, finite, low, high, Binary.nearestUInt32_toNat finite⟩
  · rintro ⟨x, literal, finite, low, high, rounded⟩
    have inside := (in_range_iff finite).2 ⟨low, high⟩
    have same : Binary.nearestUInt32 (view32 x) = n := by
      rw [← UInt32.toNat_inj, rounded]
      exact Binary.nearestUInt32_toNat finite
    rw [number_eq_ok_iff.2 ⟨literal, finite⟩]
    simp only [Except.bind, if_neg inside, same]

theorem tenths_error (unread : Command.tenths w = .error fault) : fault = .badNumber w := by
  unfold Command.tenths at unread
  cases read : Command.number w with
  | error fault =>
    rw [read] at unread
    cases unread
    exact number_error read
  | ok x =>
    rw [read] at unread
    simp only [Except.bind] at unread
    split at unread
    · cases unread
      rfl
    · cases unread

/-- What a word that fits comes to. -/
def read : Slot → String → Except CommandError Entry
  | .number _, w => (Command.number w).map .number
  | .tenths, w => (Command.tenths w).map .tenths
  | .keyword _, _ => .ok .keyword

def readAll : List Slot → List String → Except CommandError (List Entry)
  | slot :: slots, w :: ws => do
    let e ← slot.read w
    return e :: (← readAll slots ws)
  | _, _ => .ok []

theorem Reads.fits (reads : slot.Reads w e) : slot.Fits w := by
  cases reads with
  | keyword same => exact same
  | _ => trivial

theorem Reads.read_eq (reads : slot.Reads w e) : slot.read w = .ok e := by
  cases reads with
  | number literal finite =>
    rw [read, number_eq_ok_iff.2 ⟨literal, finite⟩]
    rfl
  | tenths literal finite low high rounded =>
    rw [read, tenths_eq_ok_iff.2 ⟨_, literal, finite, low, high, rounded⟩]
    rfl
  | keyword => rfl

theorem reads_of_read (fits : slot.Fits w) (found : slot.read w = .ok e) : slot.Reads w e := by
  cases slot with
  | number label =>
    obtain ⟨x, answer, rfl⟩ := map_eq_ok_iff.1 found
    obtain ⟨literal, finite⟩ := number_eq_ok_iff.1 answer
    exact .number literal finite
  | tenths =>
    obtain ⟨n, answer, rfl⟩ := map_eq_ok_iff.1 found
    obtain ⟨x, literal, finite, low, high, rounded⟩ := tenths_eq_ok_iff.1 answer
    exact .tenths literal finite low high rounded
  | keyword word =>
    cases found
    exact .keyword fits

theorem read_error (unread : slot.read w = .error fault) : fault = .badNumber w := by
  cases slot with
  | number label => exact number_error (map_eq_error_iff.1 unread)
  | tenths => exact tenths_error (map_eq_error_iff.1 unread)
  | keyword word => cases unread

/-! Lists of words are read from the left, so the first fault counts. -/

theorem readAll_append (fits : List.Forall₂ Fits slots ws) :
    readAll (slots ++ slots') (ws ++ ws') = (readAll slots ws).bind fun es =>
      (readAll slots' ws').map (es ++ ·) := by
  induction fits with
  | nil => cases h : readAll slots' ws' <;> simp [readAll, Except.bind, Except.map, h]
  | @cons slot w slots ws first others ih =>
    simp only [List.cons_append, readAll, ih]
    cases slot.read w with
    | error fault => rfl
    | ok e =>
      cases readAll slots ws with
      | error fault => rfl
      | ok es => cases readAll slots' ws' <;> rfl

theorem ReadsAll.fits (reads : ReadsAll slots ws es) : List.Forall₂ Fits slots ws := by
  induction reads with
  | nil => exact .nil
  | cons first _ ih => exact .cons first.fits ih

theorem ReadsAll.readAll_eq (reads : ReadsAll slots ws es) : readAll slots ws = .ok es := by
  induction reads with
  | nil => rfl
  | cons first _ ih =>
    rw [readAll, first.read_eq, ih]
    rfl

theorem Faulty.fits (faulty : Faulty slots ws w) : List.Forall₂ Fits slots ws := by
  induction faulty with
  | here fits _ rest => exact .cons fits rest
  | later first _ ih => exact .cons first.fits ih

theorem Faulty.readAll_eq (faulty : Faulty slots ws w) :
    readAll slots ws = .error (.badNumber w) := by
  induction faulty with
  | @here slot w slots ws fits unread rest =>
    cases found : slot.read w with
    | ok e => exact absurd (reads_of_read fits found) (unread e)
    | error fault =>
      rw [readAll, found, read_error found]
      rfl
  | later first _ ih =>
    rw [readAll, first.read_eq, ih]
    rfl

/-- Words that fit their places are read, or one of them is at fault. -/
theorem readsAll_or_faulty (fits : List.Forall₂ Fits slots ws) :
    (∃ es, ReadsAll slots ws es) ∨ ∃ w, Faulty slots ws w := by
  induction fits with
  | nil => exact .inl ⟨[], .nil⟩
  | @cons slot w slots ws first rest ih =>
    by_cases readable : ∃ e, slot.Reads w e
    · obtain ⟨e, reads⟩ := readable
      rcases ih with ⟨es, all⟩ | ⟨v, faulty⟩
      · exact .inl ⟨e :: es, .cons reads all⟩
      · exact .inr ⟨v, .later reads faulty⟩
    · exact .inr ⟨w, .here first (not_exists.1 readable) rest⟩

end Read

end Slot

end RobotScript
