import RobotScript.Proofs.Command.Usage

/-!
# Reading commands by their usage

A text spells a command exactly if its words are a name of a verb and words in the places of the
verb's usage. If it spells none, its words alone decide which error is told.
-/

namespace RobotScript

/-! ### Words of a text -/

namespace Text

theorem filter_splitOnP_append {word rest : List Char} (inside : ∀ c ∈ word, isBlank c = false)
    (apart : ∀ c ∈ rest.head?, isBlank c = true) (filled : word ≠ []) :
    ((word ++ rest).splitOnP isBlank).filter (!·.isEmpty) =
      word :: (rest.splitOnP isBlank).filter (!·.isEmpty) := by
  have kept : (!word.isEmpty) = true := by simpa using filled
  cases rest with
  | nil => simp [List.splitOnP_eq_singleton inside, kept]
  | cons c rest =>
    have blank : isBlank c = true := apart c rfl
    rw [List.splitOnP_append_cons_of_forall_mem inside c blank,
      List.splitOnP_cons_eq_if_modifyHead, if_pos blank]
    simp [kept]

/-- The words of a text are the parts between its blanks that are not empty. -/
theorem words_eq_splitOnP (cs : List Char) :
    words cs = ((cs.splitOnP isBlank).filter (!·.isEmpty)).map String.ofList := by
  fun_induction words cs with
  | case1 => rfl
  | case2 c rest blank ih =>
    rw [ih, List.splitOnP_cons_eq_if_modifyHead, if_pos blank, List.filter_cons_of_neg (by simp)]
  | case3 c rest solid ih =>
    have inside : ∀ d ∈ c :: rest.takeWhile (!isBlank ·), isBlank d = false := by
      intro d member
      rcases List.mem_cons.1 member with rfl | member
      · exact Bool.eq_false_iff.2 solid
      · simpa using List.all_eq_true.1 List.all_takeWhile d member
    have apart : ∀ d ∈ (rest.dropWhile (!isBlank ·)).head?, isBlank d = true := by
      intro d first
      have stops := List.head?_dropWhile_not (!isBlank ·) rest
      rw [Option.mem_def.1 first] at stops
      simpa using stops
    have whole : c :: rest =
        (c :: rest.takeWhile (!isBlank ·)) ++ rest.dropWhile (!isBlank ·) := by
      rw [List.cons_append, List.takeWhile_append_dropWhile]
    rw [ih, whole, filter_splitOnP_append inside apart (List.cons_ne_nil _ _), List.map_cons]

end Text

open Slot (Fits ReadsAll Faulty readAll)

/-! ### Words behind a verb -/

/-- The word `w` is at fault behind the verb: the words take one of the forms of its usage, or the
verb can be given a time and its own arguments are as they should be but for a number among them,
whatever follows. -/
def Verb.Faults (verb : Verb) (args : List String) (w : String) : Prop :=
  (∃ form ∈ verb.pattern.forms, Faulty form args w) ∨
    verb.isTimed = true ∧ ∃ own rest, args = own ++ rest ∧ Faulty verb.pattern.own own w

/-- The answers to words behind a verb. -/
inductive Verb.Answers (verb : Verb) (args : List String) :
    Except CommandError (Command Float32) → Prop
  | command {c form} (same : c.verb = verb) (listed : form ∈ verb.pattern.forms)
    (reads : ReadsAll form args c.entries) : Answers verb args (.ok c)
  | fault {w} (faults : verb.Faults args w) : Answers verb args (.error (.badNumber w))
  | usage (unfit : ∀ form ∈ verb.pattern.forms, ¬List.Forall₂ Fits form args)
    (faultless : ∀ w, ¬verb.Faults args w) : Answers verb args (.error (.usage verb))

/-- The verb of a command, and what the words behind it have come to. -/
def Command.parts (c : Command Float32) : Verb × List Entry := (c.verb, c.entries)

section Arguments

variable {verb : Verb} {form : List Slot} {args own rest : List String} {w : String}
  {es : List Entry} {c : Command Float32} {fault : CommandError}

/-! Times may follow the own arguments of some verbs. -/

theorem mem_timing_forms_iff : form ∈ Timing.groups.inits.map List.flatten ↔
    form = [] ∨ form = [.keyword "INTIME", .tenths] ∨
      form = [.keyword "INTIME", .tenths, .keyword "BACKGROUND"] := by
  simp [Timing.groups]

theorem timing_of_fits (listed : form ∈ Timing.groups.inits.map List.flatten)
    (fits : List.Forall₂ Fits form rest) :
    (Command.timing verb rest).map Timing.entries = readAll form rest := by
  rcases mem_timing_forms_iff.1 listed with rfl | rfl | rfl <;>
    simp only [List.forall₂_cons_left_iff, List.forall₂_nil_left_iff, Fits] at fits
  · subst fits
    rfl
  · obtain ⟨intime, _, same, ⟨t, _, -, rfl, rfl⟩, rfl⟩ := fits
    rw [Command.timing, if_pos same, readAll, readAll, Slot.read, Slot.read]
    cases Command.tenths t <;> rfl
  · obtain ⟨intime, _, same, ⟨t, _, -, ⟨background, _, same', rfl, rfl⟩, rfl⟩, rfl⟩ := fits
    rw [Command.timing, if_pos (Bool.and_eq_true_iff.2 ⟨same, same'⟩), readAll, readAll, Slot.read,
      Slot.read]
    cases Command.tenths t <;> rfl

theorem timing_of_unfit
    (unfit : ∀ form ∈ Timing.groups.inits.map List.flatten, ¬List.Forall₂ Fits form rest) :
    Command.timing verb rest = .error (.usage verb) := by
  fun_cases Command.timing verb rest with
  | case1 => exact absurd .nil (unfit [] (mem_timing_forms_iff.2 (.inl rfl)))
  | case2 intime t same =>
    exact absurd (.cons same (.cons trivial .nil))
      (unfit _ (mem_timing_forms_iff.2 (.inr (.inl rfl))))
  | case3 => rfl
  | case4 intime t background same =>
    obtain ⟨intime, background⟩ := Bool.and_eq_true_iff.1 same
    exact absurd (.cons intime (.cons trivial (.cons background .nil)))
      (unfit _ (mem_timing_forms_iff.2 (.inr (.inr rfl))))
  | case5 => rfl
  | case6 => rfl

/-- The own arguments of a verb are read before its time, so a fault among them is told whatever
follows. -/
theorem ofArguments_timed (timed : verb.isTimed = true)
    (fits : List.Forall₂ Fits verb.pattern.own own) :
    (Command.ofArguments verb (own ++ rest)).map Command.parts =
      (readAll verb.pattern.own own).bind fun es =>
        (Command.timing verb rest).map fun time => (verb, es ++ Timing.entries time) := by
  cases verb <;> simp only [Verb.isTimed, Bool.false_eq_true] at timed <;>
    simp only [Verb.pattern, List.forall₂_cons_left_iff, List.forall₂_nil_left_iff, Fits] at fits
  case move | turn =>
    obtain ⟨amount, _, -, rfl, rfl⟩ := fits
    simp only [List.cons_append, List.nil_append, Command.ofArguments, Verb.pattern, readAll,
      Slot.read]
    cases Command.number amount with
    | error fault => rfl
    | ok x => rcases Command.timing _ rest <;> rfl
  case arc =>
    obtain ⟨radius, _, -, ⟨angle, _, same, ⟨degrees, _, -, rfl, rfl⟩, rfl⟩, rfl⟩ := fits
    simp only [List.cons_append, List.nil_append, Command.ofArguments, Verb.pattern, readAll,
      Slot.read, if_pos same]
    cases Command.number radius with
    | error fault => rfl
    | ok x =>
      cases Command.number degrees with
      | error fault => rfl
      | ok y => cases Command.timing .arc rest <;> rfl

theorem ofArguments_untimed (untimed : verb.isTimed = false) (listed : form ∈ verb.pattern.forms)
    (fits : List.Forall₂ Fits form args) :
    (Command.ofArguments verb args).map Command.parts =
      (readAll form args).map fun es => (verb, es) := by
  cases verb <;> simp only [Verb.isTimed, Bool.true_eq_false] at untimed <;>
    simp only [Pattern.forms, Verb.pattern, List.inits, List.map_cons, List.map_nil,
      List.mem_cons, List.not_mem_nil, or_false, List.flatten_nil, List.flatten_cons,
      List.append_nil, List.cons_append, List.nil_append] at listed
  case sound =>
    rcases listed with rfl | rfl | rfl <;>
      simp only [List.forall₂_cons_left_iff, List.forall₂_nil_left_iff, Fits] at fits
    · obtain ⟨frequency, _, -, rfl, rfl⟩ := fits
      simp only [Command.ofArguments, readAll, Slot.read]
      cases Command.number frequency <;> rfl
    · obtain ⟨frequency, _, -, ⟨millis, _, -, rfl, rfl⟩, rfl⟩ := fits
      simp only [Command.ofArguments, readAll, Slot.read]
      cases Command.number frequency with
      | error fault => rfl
      | ok x => cases Command.number millis <;> rfl
    · obtain ⟨frequency, _, -, ⟨millis, _, -, ⟨wait, _, same, rfl, rfl⟩, rfl⟩, rfl⟩ := fits
      simp only [Command.ofArguments, if_pos same, readAll, Slot.read]
      cases Command.number frequency with
      | error fault => rfl
      | ok x => cases Command.number millis <;> rfl
  all_goals
    subst listed
    simp only [List.forall₂_cons_left_iff, List.forall₂_nil_left_iff, Fits] at fits
  case delay =>
    obtain ⟨t, _, -, rfl, rfl⟩ := fits
    simp only [Command.ofArguments, readAll, Slot.read]
    cases Command.tenths t <;> rfl
  case pos =>
    obtain ⟨x, _, -, ⟨y, _, -, rfl, rfl⟩, rfl⟩ := fits
    simp only [Command.ofArguments, readAll, Slot.read]
    cases Command.number x with
    | error fault => rfl
    | ok x => cases Command.number y <;> rfl
  case dir | angle | compass =>
    obtain ⟨degrees, _, -, rfl, rfl⟩ := fits
    simp only [Command.ofArguments, readAll, Slot.read]
    cases Command.number degrees <;> rfl
  case paint | feel =>
    subst fits
    rfl

theorem ofArguments_of_unfit
    (unfit : ∀ form ∈ verb.pattern.forms, ¬List.Forall₂ Fits form args)
    (apart : verb.isTimed = true →
      ∀ own rest, args = own ++ rest → ¬List.Forall₂ Fits verb.pattern.own own) :
    Command.ofArguments verb args = .error (.usage verb) := by
  have misplaced := unfit _ verb.pattern.own_mem_forms
  -- Wherever words are read, they stand in the places of a form, or a time may follow them.
  fun_cases Command.ofArguments verb args with
  | case1 distance rest | case2 distance rest =>
    exact absurd (.cons trivial .nil) (apart rfl [distance] rest rfl)
  | case3 radius word degrees rest same =>
    exact absurd (.cons trivial (.cons same (.cons trivial .nil)))
      (apart rfl [radius, word, degrees] rest rfl)
  | case6 frequency millis =>
    exact absurd (.cons trivial (.cons trivial .nil))
      (unfit [.number "frequency", .number "millis"] (by simp [Verb.pattern, Pattern.forms]))
  | case7 frequency millis wait same =>
    exact absurd (.cons trivial (.cons trivial (.cons same .nil)))
      (unfit [.number "frequency", .number "millis", .keyword "WAIT"]
        (by simp [Verb.pattern, Pattern.forms]))
  | case10 x y => exact absurd (.cons trivial (.cons trivial .nil)) misplaced
  | case5 | case9 | case11 | case12 | case13 => exact absurd (.cons trivial .nil) misplaced
  | case14 | case15 => exact absurd .nil misplaced
  | case4 | case8 | case16 => rfl

/-! ### Answers -/

theorem Verb.more_of_isTimed (timed : verb.isTimed = true) : verb.pattern.more = Timing.groups := by
  cases verb with
  | move | turn | arc => rfl
  | _ => cases timed

theorem mem_forms_of_isTimed (timed : verb.isTimed = true) :
    form ∈ verb.pattern.forms ↔
      ∃ clause ∈ Timing.groups.inits.map List.flatten, verb.pattern.own ++ clause = form := by
  rw [Pattern.forms, verb.more_of_isTimed timed]
  simp only [List.mem_map, exists_exists_and_eq_and]

theorem ofArguments_of_fits (listed : form ∈ verb.pattern.forms)
    (fits : List.Forall₂ Fits form args) :
    (Command.ofArguments verb args).map Command.parts =
      (readAll form args).map fun es => (verb, es) := by
  cases timed : verb.isTimed with
  | false => exact ofArguments_untimed timed listed fits
  | true =>
    obtain ⟨clause, clauses, rfl⟩ := (mem_forms_of_isTimed timed).1 listed
    have ownFits := List.forall₂_take verb.pattern.own.length fits
    have restFits := List.forall₂_drop verb.pattern.own.length fits
    rw [List.take_left] at ownFits
    rw [List.drop_left] at restFits
    rw [← List.take_append_drop verb.pattern.own.length args, ofArguments_timed timed ownFits,
      Slot.readAll_append ownFits, ← timing_of_fits clauses restFits]
    cases readAll verb.pattern.own (args.take verb.pattern.own.length) with
    | error fault => rfl
    | ok es => cases Command.timing verb (args.drop verb.pattern.own.length) <;> rfl

theorem ofArguments_of_faults (faults : verb.Faults args w) :
    Command.ofArguments verb args = .error (.badNumber w) := by
  refine (map_eq_error_iff (f := Command.parts)).1 ?_
  rcases faults with ⟨form, listed, faulty⟩ | ⟨timed, own, rest, rfl, faulty⟩
  · rw [ofArguments_of_fits listed faulty.fits, faulty.readAll_eq]
    rfl
  · rw [ofArguments_timed timed faulty.fits, faulty.readAll_eq]
    rfl

theorem ofArguments_of_readsAll (listed : form ∈ verb.pattern.forms)
    (reads : ReadsAll form args es) :
    ∃ c, Command.ofArguments verb args = .ok c ∧ c.verb = verb ∧ c.entries = es := by
  have parts := ofArguments_of_fits listed reads.fits
  rw [reads.readAll_eq] at parts
  obtain ⟨c, accepted, same⟩ := map_eq_ok_iff.1 parts
  exact ⟨c, accepted, Prod.mk.inj same⟩

/-- Words in no form of the usage, without a fault: they do not begin with the own arguments of the
verb, or what follows these is no time. -/
theorem ofArguments_of_faultless
    (unfit : ∀ form ∈ verb.pattern.forms, ¬List.Forall₂ Fits form args)
    (faultless : ∀ w, ¬verb.Faults args w) :
    Command.ofArguments verb args = .error (.usage verb) := by
  by_cases fitting : verb.isTimed = true ∧
      ∃ own rest, args = own ++ rest ∧ List.Forall₂ Fits verb.pattern.own own
  · obtain ⟨timed, own, rest, rfl, fits⟩ := fitting
    rcases Slot.readsAll_or_faulty fits with ⟨es, reads⟩ | ⟨w, faulty⟩
    · have untimely : ∀ clause ∈ Timing.groups.inits.map List.flatten,
          ¬List.Forall₂ Fits clause rest := by
        intro clause clauses restFits
        exact unfit _ ((mem_forms_of_isTimed timed).2 ⟨clause, clauses, rfl⟩)
          (List.rel_append fits restFits)
      refine (map_eq_error_iff (f := Command.parts)).1 ?_
      rw [ofArguments_timed timed fits, reads.readAll_eq, timing_of_unfit untimely]
      rfl
    · exact absurd (.inr ⟨timed, own, rest, rfl, faulty⟩) (faultless w)
  · apply ofArguments_of_unfit unfit
    intro timed own rest same fits
    exact fitting ⟨timed, own, rest, same, fits⟩

theorem Verb.Answers.ofArguments_eq {answer : Except CommandError (Command Float32)}
    (answers : verb.Answers args answer) : Command.ofArguments verb args = answer := by
  cases answers with
  | @command c form same listed reads =>
    obtain ⟨d, accepted, verbs, entries⟩ := ofArguments_of_readsAll listed reads
    rw [accepted, Command.ext_entries (verbs.trans same.symm) entries]
  | fault faults => exact ofArguments_of_faults faults
  | usage unfit faultless => exact ofArguments_of_faultless unfit faultless

theorem exists_answers (verb : Verb) (args : List String) :
    ∃ answer, verb.Answers args answer := by
  by_cases fitting : ∃ form ∈ verb.pattern.forms, List.Forall₂ Fits form args
  · obtain ⟨form, listed, fits⟩ := fitting
    rcases Slot.readsAll_or_faulty fits with ⟨es, reads⟩ | ⟨w, faulty⟩
    · obtain ⟨c, -, same, rfl⟩ := ofArguments_of_readsAll listed reads
      exact ⟨_, .command same listed reads⟩
    · exact ⟨_, .fault (.inl ⟨form, listed, faulty⟩)⟩
  · by_cases faulted : ∃ w, verb.Faults args w
    · obtain ⟨w, faults⟩ := faulted
      exact ⟨_, .fault faults⟩
    · exact ⟨_, .usage (fun form listed fits => fitting ⟨form, listed, fits⟩)
        (not_exists.1 faulted)⟩

theorem ofArguments_eq_iff {answer : Except CommandError (Command Float32)} :
    Command.ofArguments verb args = answer ↔ verb.Answers args answer := by
  constructor
  · rintro rfl
    obtain ⟨answer, answers⟩ := exists_answers verb args
    rwa [answers.ofArguments_eq]
  · exact Verb.Answers.ofArguments_eq

theorem ofArguments_eq_ok_iff : Command.ofArguments verb args = .ok c ↔
    verb = c.verb ∧ ∃ form ∈ c.verb.pattern.forms, ReadsAll form args c.entries := by
  rw [ofArguments_eq_iff]
  constructor
  · rintro (⟨rfl, listed, reads⟩ | _ | _)
    exact ⟨rfl, _, listed, reads⟩
  · rintro ⟨rfl, form, listed, reads⟩
    exact .command rfl listed reads

theorem ofArguments_eq_badNumber_iff :
    Command.ofArguments verb args = .error (.badNumber w) ↔ verb.Faults args w := by
  rw [ofArguments_eq_iff]
  constructor
  · rintro (_ | faults | _)
    exact faults
  · exact .fault

theorem ofArguments_eq_usage_iff {verb' : Verb} :
    Command.ofArguments verb args = .error (.usage verb') ↔ verb = verb' ∧
      (∀ form ∈ verb'.pattern.forms, ¬List.Forall₂ Fits form args) ∧
      ∀ w, ¬verb'.Faults args w := by
  rw [ofArguments_eq_iff]
  constructor
  · rintro (_ | _ | ⟨unfit, faultless⟩)
    exact ⟨rfl, unfit, faultless⟩
  · rintro ⟨rfl, unfit, faultless⟩
    exact .usage unfit faultless

theorem ofArguments_ne_error (other : ∀ w, fault ≠ .badNumber w) (other' : fault ≠ .usage verb) :
    Command.ofArguments verb args ≠ .error fault := by
  intro failed
  rcases ofArguments_eq_iff.1 failed with _ | _ | _
  · exact other _ rfl
  · exact other' rfl

end Arguments

theorem Command.ofText_cases (table : VerbTable) (text : String) :
    (Text.words text.toList = [] ∧ ofText table text = .error .empty) ∨
    ∃ name args, Text.words text.toList = name :: args ∧
      (table.find? name = none ∧ ofText table text = .error (.unknownVerb name) ∨
        ∃ verb, table.find? name = some verb ∧ ofText table text = ofArguments verb args) := by
  unfold ofText
  cases Text.words text.toList with
  | nil => exact .inl ⟨rfl, rfl⟩
  | cons name args =>
    refine .inr ⟨name, args, rfl, ?_⟩
    dsimp only
    cases table.find? name with
    | none => exact .inl ⟨rfl, rfl⟩
    | some verb => exact .inr ⟨verb, rfl, rfl⟩

/-- Commands are read by the usage of their verbs, which is the pattern behind a name. A text with
other words is answered with the first of these that applies: that it is empty, that its verb is
unknown, the first word that should have been a number, and the usage. -/
theorem Command.parser_follows_usage (table : VerbTable) (text : String) :
    let words := Text.words text.toList
    words = ((text.toList.splitOnP Text.isBlank).filter (!·.isEmpty)).map String.ofList ∧
    (∀ verb : Verb, verb.pattern.own ≠ [] → ∃ name, VerbTable.standard.find? name = some verb ∧
      verb.usage = name ++ " " ++ verb.pattern.text) ∧
    (∀ c, ofText table text = .ok c ↔ ∃ name args, words = name :: args ∧
      table.find? name = some c.verb ∧
      ∃ form ∈ c.verb.pattern.forms, ReadsAll form args c.entries) ∧
    (ofText table text = .error .empty ↔ words = []) ∧
    (∀ name, ofText table text = .error (.unknownVerb name) ↔
      ∃ args, words = name :: args ∧ table.find? name = none) ∧
    (∀ w, ofText table text = .error (.badNumber w) ↔ ∃ name args verb,
      words = name :: args ∧ table.find? name = some verb ∧ verb.Faults args w) ∧
    (∀ verb, ofText table text = .error (.usage verb) ↔ ∃ name args,
      words = name :: args ∧ table.find? name = some verb ∧
      (∀ form ∈ verb.pattern.forms, ¬List.Forall₂ Fits form args) ∧
      ∀ w, ¬verb.Faults args w) ∧
    ∀ e, ofText table text ≠ .error (.heading e) := by
  refine ⟨Text.words_eq_splitOnP _, usage_eq_pattern, ?_⟩
  obtain ⟨words, answer⟩ | ⟨name, args, words, ⟨unknown, answer⟩ | ⟨verb, known, answer⟩⟩ :=
    ofText_cases table text
  · simp [words, answer]
  · simp [words, answer, unknown]
  · have bound : ∀ other, name = other → table.find? other ≠ none := by
      rintro _ rfl
      simp [known]
    simp only [words, answer, List.cons.injEq, reduceCtorEq, iff_false]
    refine ⟨?_, ofArguments_ne_error (by simp) (by simp), ?_, ?_, ?_, ?_⟩
    · intro c
      simp [ofArguments_eq_ok_iff, known]
    · intro other
      have never : ofArguments verb args ≠ .error (.unknownVerb other) :=
        ofArguments_ne_error (by simp) (by simp)
      simpa [never] using bound other
    · intro w
      simp [ofArguments_eq_badNumber_iff, known]
    · intro verb'
      simp [ofArguments_eq_usage_iff, known]
    · intro e
      exact ofArguments_ne_error (by simp) (by simp)

/-- A number of the verb's own is at fault before the words behind it are. -/
example : Command.ofArguments .move ["x", "AFTER"] = .error (.badNumber "x") := by rfl

end RobotScript
