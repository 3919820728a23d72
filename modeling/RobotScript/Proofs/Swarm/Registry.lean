import RobotScript.Swarm

/-!
# The registry of a swarm

Whatever joins and leaves a swarm, no two of its robots have names that differ in case alone, so a
name finds one robot at most. Colors differ when a robot joins, but may change later.
-/

namespace RobotScript

open Text (sameWord)

theorem sameWord_iff {a b : String} :
    sameWord a b = true ↔ a.toList.map Char.toLower = b.toList.map Char.toLower :=
  beq_iff_eq

theorem sameWord_comm (a b : String) : sameWord a b = sameWord b a :=
  BEq.comm

theorem sameWord_congr {a b : String} (same : sameWord a b = true) (c : String) :
    sameWord c a = sameWord c b := by
  rw [sameWord, sameWord, sameWord_iff.1 same]

namespace Swarm

/-! ### Calls -/

/-- What is done to a swarm: calls of its registry, and a change of the color of a robot. -/
inductive Call where
  | add (spec : Robot.Spec Float32)
  | remove (name : String)
  | find (name : String)
  | paint (name : String) (color : Color)

def after (s : Swarm) : Call → Swarm
  | .add spec => (s.add spec).2
  | .remove name => (s.remove name).2
  | .find _ => s
  | .paint name color => s.modify name fun r => { r with color := color }

def run (s : Swarm) (calls : List Call) : Swarm := calls.foldl after s

/-! ### Robots whose names differ -/

/-- No two of the robots have names that differ in case alone. -/
def Apart (robots : List (Robot Float32)) : Prop :=
  robots.Pairwise fun a b => sameWord a.name b.name = false

theorem apart_iff {robots : List (Robot Float32)} :
    Apart robots ↔ (robots.map Robot.name).Pairwise fun a b => sameWord a b = false := by
  rw [List.pairwise_map, Apart]

section Apart

variable {robots : List (Robot Float32)} {r : Robot Float32} {name : String}

theorem Apart.split (apart : Apart robots) (member : r ∈ robots)
    (called : sameWord r.name name = true) :
    ∃ before later, robots = before ++ r :: later ∧
      ∀ other ∈ before ++ later, sameWord other.name name = false := by
  obtain ⟨before, later, rfl⟩ := List.append_of_mem member
  refine ⟨before, later, rfl, ?_⟩
  obtain ⟨-, below, above⟩ := List.pairwise_append.1 apart
  intro other within
  rw [← sameWord_congr called]
  rcases List.mem_append.1 within with early | late
  · exact above other early r List.mem_cons_self
  · rw [sameWord_comm]
    exact (List.pairwise_cons.1 below).1 other late

theorem changeFirst_names {change : Robot Float32 → Robot Float32}
    (keeps : ∀ r, (change r).name = r.name) (name : String) (robots : List (Robot Float32)) :
    (changeFirst name change robots).map Robot.name = robots.map Robot.name := by
  induction robots with
  | nil => rfl
  | cons r robots ih =>
    rw [changeFirst]
    split
    · rw [List.map_cons, List.map_cons, keeps]
    · rw [List.map_cons, List.map_cons, ih]

end Apart

/-! ### Single calls -/

section Call

variable {s : Swarm} {r : Robot Float32} {name : String}

theorem find?_eq_some_iff (apart : Apart s.active) :
    s.find? name = some r ↔ r ∈ s.active ∧ sameWord r.name name = true := by
  constructor
  · intro found
    have called := List.find?_some (p := fun r : Robot Float32 => sameWord r.name name) found
    exact ⟨List.mem_of_find?_eq_some found, called⟩
  · rintro ⟨member, called⟩
    obtain ⟨before, later, parts, others⟩ := apart.split member called
    rw [find?, List.find?_eq_some_iff_append]
    refine ⟨called, before, later, parts, ?_⟩
    intro other within
    simp [others other (List.mem_append_left later within)]

theorem find?_eq_none_iff :
    s.find? name = none ↔ ∀ r ∈ s.active, sameWord r.name name = false := by
  rw [find?, List.find?_eq_none]
  simp

end Call

/-- What comes of it when a robot is to join: a place outside the arena counts before a name in use,
and that before a color in use. -/
inductive Admits (s : Swarm) (spec : Robot.Spec Float32) :
    Except SwarmError (Robot Float32) × Swarm → Prop
  | outside (away : s.arena.contains spec.position = false) :
    s.Admits spec (.error (.outsideArena spec.name spec.position.x spec.position.y), s)
  | sameName {r} (inside : s.arena.contains spec.position = true) (member : r ∈ s.active)
    (called : sameWord r.name spec.name = true) : s.Admits spec (.error (.duplicateName r.name), s)
  | sameColor {before r later} (inside : s.arena.contains spec.position = true)
    (fresh : ∀ r ∈ s.active, sameWord r.name spec.name = false)
    (parts : s.active = before ++ r :: later) (painted : r.color = spec.color)
    (first : ∀ b ∈ before, b.color ≠ spec.color) :
    s.Admits spec (.error (.duplicateColor r.name spec.color), s)
  | joins (inside : s.arena.contains spec.position = true)
    (fresh : ∀ r ∈ s.active, sameWord r.name spec.name = false)
    (unlike : ∀ r ∈ s.active, r.color ≠ spec.color) :
    s.Admits spec (.ok (.new spec s.arena s.settings),
      { s with active := s.active ++ [.new spec s.arena s.settings] })

section Add

variable {s : Swarm} {spec : Robot.Spec Float32}
  {result : Except SwarmError (Robot Float32) × Swarm}

theorem admits_add (apart : Apart s.active) (spec : Robot.Spec Float32) :
    s.Admits spec (s.add spec) := by
  unfold add
  cases inside : s.arena.contains spec.position with
  | false => exact .outside inside
  | true =>
    simp only [Bool.not_true, Bool.false_eq_true, if_false]
    cases found : s.find? spec.name with
    | some existing =>
      obtain ⟨member, called⟩ := (find?_eq_some_iff apart).1 found
      exact .sameName inside member called
    | none =>
      have fresh := find?_eq_none_iff.1 found
      cases painted : s.active.find? (fun r => r.color == spec.color) with
      | some existing =>
        obtain ⟨same, before, later, parts, first⟩ := List.find?_eq_some_iff_append.1 painted
        exact .sameColor inside fresh parts (by simpa using same) (by simpa using first)
      | none => exact .joins inside fresh (by simpa using List.find?_eq_none.1 painted)

theorem Admits.add_eq (apart : Apart s.active) (admits : s.Admits spec result) :
    s.add spec = result := by
  unfold add
  cases admits with
  | outside away => simp [away]
  | sameName inside member called => simp [inside, (find?_eq_some_iff apart).2 ⟨member, called⟩]
  | @sameColor before r later inside fresh parts painted first =>
    have found : s.active.find? (fun r => r.color == spec.color) = some r := by
      rw [List.find?_eq_some_iff_append]
      exact ⟨by simp [painted], before, later, parts, by simpa using first⟩
    simp [inside, find?_eq_none_iff.2 fresh, found]
  | joins inside fresh unlike =>
    have found : s.active.find? (fun r => r.color == spec.color) = none := by
      rw [List.find?_eq_none]
      simpa using unlike
    simp [inside, find?_eq_none_iff.2 fresh, found]

theorem Admits.apart (admits : s.Admits spec result) (apart : Apart s.active) :
    Apart result.2.active := by
  cases admits with
  | outside | sameName | sameColor => exact apart
  | joins inside fresh unlike =>
    rw [Apart, List.pairwise_append]
    refine ⟨apart, List.pairwise_singleton _ _, ?_⟩
    intro r member last new
    rw [List.mem_singleton.1 new]
    exact fresh r member

/-- A robot that is turned down is turned down before anything is written. -/
theorem add_error {e : SwarmError} (refused : (s.add spec).1 = .error e) : (s.add spec).2 = s := by
  revert refused
  unfold add
  split
  · exact fun _ => rfl
  · split
    · exact fun _ => rfl
    · split
      · exact fun _ => rfl
      · exact nofun

end Add

/-- What comes of it when a robot is to leave: no other answers to the name, and the others stay in
their order. -/
inductive Dismisses (s : Swarm) (name : String) : Option (Robot Float32) × Swarm → Prop
  | leaves {before r later} (parts : s.active = before ++ r :: later)
    (called : sameWord r.name name = true)
    (others : ∀ other ∈ before ++ later, sameWord other.name name = false) :
    s.Dismisses name (some r, { s with active := before ++ later, retired := r :: s.retired })
  | nobody (absent : ∀ r ∈ s.active, sameWord r.name name = false) : s.Dismisses name (none, s)

section Remove

variable {s : Swarm} {name other : String} {result : Option (Robot Float32) × Swarm}

theorem dismisses_remove (apart : Apart s.active) (name : String) :
    s.Dismisses name (s.remove name) := by
  unfold remove
  cases found : s.find? name with
  | none => exact .nobody (find?_eq_none_iff.1 found)
  | some r =>
    obtain ⟨member, called⟩ := (find?_eq_some_iff apart).1 found
    obtain ⟨before, later, parts, others⟩ := apart.split member called
    have early : ∀ b ∈ before, ¬sameWord b.name name = true := by
      intro b within
      simp [others b (List.mem_append_left later within)]
    have erased : s.active.eraseP (fun r => sameWord r.name name) = before ++ later := by
      rw [parts, List.eraseP_append_right (r :: later) early]
      simp only [List.eraseP_cons_of_pos, called]
    simp only [erased]
    exact .leaves parts called others

theorem Dismisses.apart (dismisses : s.Dismisses name result) (apart : Apart s.active) :
    Apart result.2.active := by
  cases dismisses with
  | leaves parts called others =>
    rw [parts] at apart
    exact apart.sublist ((List.sublist_cons_self _ _).append_left _)
  | nobody absent => exact apart

theorem Dismisses.find?_same (dismisses : s.Dismisses name result)
    (same : sameWord other name = true) : result.2.find? other = none := by
  rw [find?_eq_none_iff]
  intro r member
  rw [sameWord_congr same]
  cases dismisses with
  | leaves parts called others => exact others r member
  | nobody absent => exact absent r member

theorem Dismisses.find?_other (dismisses : s.Dismisses name result)
    (differs : sameWord other name = false) : result.2.find? other = s.find? other := by
  cases dismisses with
  | @leaves before r later parts called others =>
    have missed : sameWord r.name other = false := by
      rw [sameWord_comm, sameWord_congr called]
      exact differs
    rw [find?, find?, parts, List.find?_append, List.find?_append, List.find?_cons, missed]
  | nobody absent => rfl

end Remove

/-! ### Runs -/

section Run

variable {s : Swarm}

theorem apart_paint {name : String} {color : Color} (apart : Apart s.active) :
    Apart (s.modify name fun r => { r with color := color }).active := by
  rw [modify]
  split
  · rw [apart_iff] at apart ⊢
    rwa [changeFirst_names]
    exact fun _ => rfl
  · exact apart

theorem apart_after (apart : Apart s.active) (call : Call) : Apart (s.after call).active := by
  cases call with
  | add spec => exact (admits_add apart spec).apart apart
  | remove name => exact (dismisses_remove apart name).apart apart
  | find name => exact apart
  | paint name color => exact apart_paint apart

theorem apart_run (apart : Apart s.active) (calls : List Call) : Apart (s.run calls).active := by
  induction calls generalizing s with
  | nil => exact apart
  | cons call calls ih => exact ih (apart_after apart call)

theorem apart_new {width height : Float32} {settings : Settings Float32}
    (built : new width height settings = .ok s) : Apart s.active := by
  rw [new] at built
  split at built
  · cases built
  · cases built
    exact .nil

end Run

/-- Whatever calls a new swarm has had, names that differ in case alone are never in it together. A
robot joins or is turned down as `Admits` says, and nothing changes when it is turned down; a robot
leaves as `Dismisses` says, and then only lookups of its own name, in any case, are lost. -/
theorem registry_of_run (width height : Float32) (settings : Settings Float32) (fresh : Swarm)
    (built : new width height settings = .ok fresh) (calls : List Call) (s : Swarm)
    (reached : fresh.run calls = s) :
    (s.active.Pairwise fun a b => sameWord a.name b.name = false) ∧
    (∀ spec result, s.add spec = result ↔ s.Admits spec result) ∧
    (∀ spec e, (s.add spec).1 = .error e → s.after (.add spec) = s) ∧
    (∀ name r, s.find? name = some r ↔ r ∈ s.active ∧ sameWord r.name name = true) ∧
    ∀ name, s.Dismisses name (s.remove name) ∧
      (∀ other, sameWord other name = true → (s.remove name).2.find? other = none) ∧
      ∀ other, sameWord other name = false → (s.remove name).2.find? other = s.find? other := by
  subst reached
  have apart := apart_run (apart_new built) calls
  refine ⟨apart, ?_, fun _ _ => add_error, fun _ _ => find?_eq_some_iff apart, ?_⟩
  · intro spec result
    constructor
    · rintro rfl
      exact admits_add apart spec
    · exact Admits.add_eq apart
  · intro name
    have dismisses := dismisses_remove apart name
    exact ⟨dismisses, fun _ => dismisses.find?_same, fun _ => dismisses.find?_other⟩

/-- An empty arena. -/
def meadow : Swarm where
  arena := ⟨⟨0.0, 0.0⟩, ⟨400.0, 400.0⟩⟩
  settings := .default
  active := []
  retired := []

/-- Two robots join, and then are of one color. -/
def pairing : List Call :=
  [.add ⟨"Alpha", .red, ⟨50.0, 50.0⟩, 0.0, 15.0⟩, .add ⟨"Beta", .green, ⟨90.0, 50.0⟩, 0.0, 15.0⟩,
    .paint "Beta" .red]

/-- No third robot can be red, and the first of the two is to blame; the second leaves under another
case of its name. -/
theorem registry_of_run_pairing :
    new 400.0 400.0 .default = .ok meadow ∧
      (meadow.run pairing).Admits ⟨"Gamma", .red, ⟨150.0, 50.0⟩, 0.0, 15.0⟩
        (.error (.duplicateColor "Alpha" .red), meadow.run pairing) ∧
      ((meadow.run pairing).remove "bETA").2.find? "BETA" = none ∧
      ((meadow.run pairing).remove "bETA").2.find? "ALPHA" =
        (meadow.run pairing).find? "ALPHA" := by
  have built : new 400.0 400.0 .default = .ok meadow := rfl
  obtain ⟨-, admits, -, -, dismisses⟩ := registry_of_run _ _ _ _ built pairing _ rfl
  obtain ⟨-, lost, kept⟩ := dismisses "bETA"
  exact ⟨built, (admits _ _).1 rfl, lost "BETA" (by decide), kept "ALPHA" (by decide)⟩

end Swarm

end RobotScript
