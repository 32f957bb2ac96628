import TypeLists.Proofs.Constant.Resolution

/-! Constant items: every mention is evaluated whether or not control reaches it, so that the first
failing mention decides, and without one the mentions are as good as their values. -/

namespace TypeLists

namespace Constant

variable {type : Type}

/-- A mention of the constant fails and precedes all others that do. -/
structure Foremost (precedes : List Nat → List Nat → Prop) (fails : Mention → type → Prop)
    (constant : Constant type) (place : List Nat) (how : Mention) (subject : type) : Prop where
  /-- The mention stands at the place. -/
  occurs : constant.Occurs place how subject
  /-- It fails. -/
  failing : fails how subject
  /-- Every other mention that fails comes after it. -/
  first : ∀ {place' how' subject'}, constant.Occurs place' how' subject' → fails how' subject' →
    place' = place ∨ precedes place place'

/-- The constant with truth in place of every guard, and with a boolean in place of every value. -/
def inlined (known : type → Bool) : Constant type → Constant type
  -- Lengths and control flow stay as they are.
  | .literal value => .literal value
  | .not operand => .not (operand.inlined known)
  | .connect connective left right =>
    .connect connective (left.inlined known) (right.inlined known)
  | .choose condition positive negative =>
    .choose (condition.inlined known) (positive.inlined known) (negative.inlined known)
  | .compare comparison kind left right => .compare comparison kind left right
  | .panic index => .panic index
  | .mention .value subject => .literal (known subject)
  | .mention _ _ => .literal true

variable {constant : Constant type} {fails : Mention → type → Prop} {place : List Nat}
  {how : Mention} {subject : type}

/-- Among the mentions that fail, one is evaluated before all others. -/
theorem exists_foremost (occurs : constant.Occurs place how subject) (failing : fails how subject) :
    ∃ place how subject, constant.Foremost constant.Before fails place how subject := by
  -- The first failing mention of the list is the one that is evaluated first.
  classical
  have some : (constant.occurrences.find? fun occurrence =>
      fails occurrence.2.1 occurrence.2.2).isSome := by
    rw [List.find?_isSome]
    exact ⟨_, mem_occurrences_iff.mpr occurs, decide_eq_true failing⟩
  obtain ⟨found, first⟩ := Option.isSome_iff_exists.mp some
  rw [List.find?_eq_some_iff_append] at first
  obtain ⟨failing, earlier, later, split, quiet⟩ := first
  have ordered := constant.pairwise_occurrences
  rw [split] at ordered
  have inside : found ∈ constant.occurrences := by simp [split]
  refine ⟨found.1, found.2.1, found.2.2, mem_occurrences_iff.mp inside,
    of_decide_eq_true failing, ?_⟩
  intro place' how' subject' occurs' failing'
  -- A failing mention is not among the earlier ones, so that it is this one or a later one.
  have member := split ▸ mem_occurrences_iff.mpr occurs'
  rcases List.mem_append.mp member with inside | inside
  · have silent := quiet _ inside
    simp [failing'] at silent
  · rcases List.mem_cons.mp inside with same | inside
    · exact .inl (congrArg Prod.fst same)
    · exact .inr ((List.pairwise_cons.mp (List.pairwise_append.mp ordered).2.1).1 _ inside)

/-- No mention that is evaluated before the foremost failing one fails. -/
theorem Foremost.split (foremost : constant.Foremost constant.Before fails place how subject) :
    ∃ earlier later, constant.occurrences = earlier ++ (place, how, subject) :: later ∧
      ∀ occurrence ∈ earlier, ¬ fails occurrence.2.1 occurrence.2.2 := by
  -- An earlier failing mention would have to come after the foremost one.
  obtain ⟨earlier, later, split⟩ := List.append_of_mem (mem_occurrences_iff.mpr foremost.occurs)
  refine ⟨earlier, later, split, ?_⟩
  intro occurrence inside failing
  have ordered := constant.pairwise_occurrences
  rw [split] at ordered
  have before := (List.pairwise_append.mp ordered).2.2 _ inside _ (List.mem_cons_self ..)
  have occurs := mem_occurrences_iff.mp (split ▸ List.mem_append_left _ inside)
  rcases foremost.first occurs failing with same | after
  · rw [same] at before
    exact before.asymm before
  · exact before.asymm after

variable {reading : Reading type}

/-- The failures of the mentions, read off the mentions with their places. -/
theorem failures_mentions_eq (reading : Reading type) (constant : Constant type) :
    failures reading constant.mentions = constant.occurrences.filterMap fun occurrence =>
      match reading.outcome occurrence.2.1 occurrence.2.2 with
      | .ok _ => none
      | .error failure => some failure := by
  rw [failures, mentions_eq, List.filterMap_map]
  rfl

/-- If mentions fail, the constant fails as the foremost of them. -/
theorem Foremost.asItem_eq (foremost : constant.Foremost constant.Before
      (fun how subject => ∃ failure, reading.outcome how subject = .error failure) place how
      subject) :
    constant.asItem reading = reading.outcome how subject := by
  obtain ⟨earlier, later, split, quiet⟩ := foremost.split
  obtain ⟨failure, outcome⟩ := foremost.failing
  have none : (earlier.filterMap fun occurrence =>
      match reading.outcome occurrence.2.1 occurrence.2.2 with
      | .ok _ => none
      | .error failure => some failure) = [] := by
    rw [List.filterMap_eq_nil_iff]
    intro occurrence inside
    cases outcome : reading.outcome occurrence.2.1 occurrence.2.2 with
    | ok value => rfl
    | error failure => exact absurd ⟨failure, outcome⟩ (quiet occurrence inside)
  rw [asItem, failures_mentions_eq, split, List.filterMap_append, none, List.nil_append]
  simp only [List.filterMap_cons, outcome]

/-- If no mention fails, control flow decides. -/
theorem asItem_eq_run (succeeds : ∀ place how subject, constant.Occurs place how subject →
      ¬ ∃ failure, reading.outcome how subject = .error failure) :
    constant.asItem reading = constant.run reading := by
  have none : failures reading constant.mentions = [] := by
    rw [failures_mentions_eq, List.filterMap_eq_nil_iff]
    intro occurrence inside
    cases outcome : reading.outcome occurrence.2.1 occurrence.2.2 with
    | ok value => rfl
    | error failure =>
      exact absurd ⟨failure, outcome⟩ (succeeds _ _ _ (mem_occurrences_iff.mp inside))
  rw [asItem, none]

/-- A constant that is nothing but a mention ends as the mention does. -/
theorem asItem_mention (reading : Reading type) (how : Mention) (subject : type) :
    (Constant.mention how subject).asItem reading = reading.outcome how subject := by
  cases outcome : reading.outcome how subject with
  | ok value => simp [asItem, mentions, failures, outcome, run]
  | error failure => simp [asItem, mentions, failures, outcome]

end Constant

/-- A guard that evaluates is true. -/
theorem Form.reading_guard {how : Mention} {form : Form} {value : Bool} (guard : how ≠ .value)
    (outcome : Form.reading.outcome how form = .ok value) : value = true := by
  -- What a boolean guard evaluates is dropped, and the guards of types evaluate nothing.
  have evaluated {result : Except Failure Bool}
      (outcome : result.map (fun _ => true) = .ok value) : value = true := by
    cases result with
    | ok other => exact (Except.ok.inj outcome).symm
    | error failure => cases outcome
  cases how with
  | value => contradiction
  | boolGuard => exact evaluated outcome
  | eagerBool => exact evaluated outcome
  | typeGuard => exact (Except.ok.inj outcome).symm
  | eagerType => exact (Except.ok.inj outcome).symm

namespace Program

variable {program : Program} {constant : Constant Ty} {resolved : Constant Form}

/-- The mention of the type fails if it is the whole of a constant item. -/
def Fails (program : Program) (how : Mention) (type : Ty) : Prop :=
  ∃ message, program.answer (.value .item (.mention how type)) = .error (.constant message)

/-- The value of the type is true if it is the whole of a constant item. -/
def truth (program : Program) (type : Ty) : Bool :=
  program.answer (.value .item (.mention .value type)) = .ok (.flag true)

/-- A mention answers as it is read off the normal form. -/
theorem Resolves.answer_mention (sound : program.Sound) {how : Mention} {type : Ty} {form : Form}
    (resolves : program.Resolves (.mention how type) (.mention how form)) :
    program.answer (.value .item (.mention how type)) =
      Answer.ofOutcome (Form.reading.outcome how form) := by
  rw [resolves.answer_value sound, Constant.asItem_mention]

/-- A mention fails exactly if it does so on the normal form. -/
theorem Resolves.fails_iff (sound : program.Sound) {how : Mention} {type : Ty} {form : Form}
    (resolves : program.Resolves (.mention how type) (.mention how form)) :
    program.Fails how type ↔ ∃ failure, Form.reading.outcome how form = .error failure := by
  rw [Fails, resolves.answer_mention sound]
  cases Form.reading.outcome how form with
  | ok value => simp [Answer.ofOutcome]
  | error failure => simp [Answer.ofOutcome]

/-- The foremost failing mention of a constant is that of its resolution. -/
theorem Resolves.foremost (sound : program.Sound) (resolves : program.Resolves constant resolved)
    {place : List Nat} {how : Mention} {type : Ty}
    (foremost : constant.Foremost constant.Before program.Fails place how type) :
    ∃ form, program.Resolves (.mention how type) (.mention how form) ∧
      resolved.Foremost resolved.Before
        (fun how form => ∃ failure, Form.reading.outcome how form = .error failure) place how
        form := by
  -- Mentions and their resolutions stand in the same places and fail together.
  obtain ⟨form, occurs, mention⟩ := resolves.alike.occurs foremost.occurs
  refine ⟨form, mention, occurs, (mention.fails_iff sound).mp foremost.failing, ?_⟩
  intro place' how' form' occurs' failing'
  obtain ⟨type', occurs'', mention'⟩ := resolves.alike.flip.occurs occurs'
  have failing := (mention'.fails_iff sound).mpr failing'
  exact (foremost.first occurs'' failing).imp_right resolves.alike.before

/-- Mentions that do not fail are as good as their values, wherever control flow comes to them. -/
theorem Resolves.inlined (sound : program.Sound) (resolves : program.Resolves constant resolved)
    (succeeds : ∀ place how type, constant.Occurs place how type → ¬ program.Fails how type) :
    ∃ plain, program.Resolves (constant.inlined program.truth) plain ∧
      plain.run Form.reading = resolved.run Form.reading := by
  -- The induction is on the constant, and only its mentions are replaced.
  induction constant generalizing resolved with
  | literal value => exact ⟨resolved, resolves, rfl⟩
  | compare comparison kind left right => exact ⟨resolved, resolves, rfl⟩
  | panic index => exact ⟨resolved, resolves, rfl⟩
  | not operand ih =>
    obtain ⟨operand', inner, rfl⟩ := resolves_not_iff.mp resolves
    obtain ⟨plain, plainResolves, same⟩ :=
      ih inner fun place how type occurs => succeeds (0 :: place) how type (.within rfl occurs)
    exact ⟨.not plain, resolves_not_iff.mpr ⟨_, plainResolves, rfl⟩, by simp only [Constant.run, same]⟩
  | connect connective left right ihLeft ihRight =>
    obtain ⟨left', right', first, second, rfl⟩ := resolves_connect_iff.mp resolves
    obtain ⟨plain, plainResolves, same⟩ :=
      ihLeft first fun place how type occurs => succeeds (0 :: place) how type (.within rfl occurs)
    obtain ⟨plain', plainResolves', same'⟩ :=
      ihRight second fun place how type occurs => succeeds (1 :: place) how type (.within rfl occurs)
    refine ⟨.connect connective plain plain',
      resolves_connect_iff.mpr ⟨_, _, plainResolves, plainResolves', rfl⟩, ?_⟩
    cases connective with
    | _ => simp only [Constant.run, same, same']
  | choose condition positive negative ihCondition ihPositive ihNegative =>
    obtain ⟨condition', positive', negative', first, second, third, rfl⟩ :=
      resolves_choose_iff.mp resolves
    obtain ⟨plain, plainResolves, same⟩ := ihCondition first fun place how type occurs =>
      succeeds (0 :: place) how type (.within rfl occurs)
    obtain ⟨plain', plainResolves', same'⟩ := ihPositive second fun place how type occurs =>
      succeeds (1 :: place) how type (.within rfl occurs)
    obtain ⟨plain'', plainResolves'', same''⟩ := ihNegative third fun place how type occurs =>
      succeeds (2 :: place) how type (.within rfl occurs)
    exact ⟨.choose plain plain' plain'',
      resolves_choose_iff.mpr ⟨_, _, _, plainResolves, plainResolves', plainResolves'', rfl⟩,
      by simp only [Constant.run, same, same', same'']⟩
  | mention how type =>
    obtain ⟨form, rfl⟩ := resolves.eq_mention
    have quiet := succeeds [] how type (.here how type)
    rw [resolves.fails_iff sound] at quiet
    obtain ⟨scope, _, opens, _⟩ := id resolves
    cases outcome : Form.reading.outcome how form with
    | error failure => exact absurd ⟨failure, outcome⟩ quiet
    | ok value =>
      -- The mention answers with its value, which is the one that is put in its place.
      have known : (Constant.mention how type).inlined program.truth = .literal value := by
        by_cases named : how = .value
        · subst named
          rw [Constant.inlined, truth, resolves.answer_mention sound, outcome]
          simp [Answer.ofOutcome]
        · rw [Form.reading_guard named outcome]
          cases how with
          | value => contradiction
          | _ => rfl
      rw [known]
      refine ⟨.literal value, resolves_literal_iff.mpr ⟨⟨scope, opens⟩, rfl⟩, ?_⟩
      rw [Constant.run, Constant.run, outcome]

/--
A constant item evaluates its mentions before control flow begins: the foremost one that fails decides
how the item ends, and if none fails, the mentions are as good as their values.
-/
theorem constantItem_evaluates_mentions (sound : program.Sound)
    (wellFormed : ∃ resolved, program.Resolves constant resolved) :
    (∀ place how type, constant.Occurs place how type → program.Fails how type →
      ∃ place how type, constant.Foremost constant.Before program.Fails place how type) ∧
    (∀ place how type, constant.Foremost constant.Before program.Fails place how type →
      program.answer (.value .item constant) =
        program.answer (.value .item (.mention how type))) ∧
    ((∀ place how type, constant.Occurs place how type → ¬ program.Fails how type) →
      ∃ plain, program.Resolves (constant.inlined program.truth) plain ∧
        program.answer (.value .item constant) = Answer.ofOutcome (plain.run Form.reading)) := by
  obtain ⟨resolved, resolves⟩ := wellFormed
  refine ⟨?_, ?_, ?_⟩
  · intro place how type occurs failing
    exact Constant.exists_foremost occurs failing
  · intro place how type foremost
    obtain ⟨form, mention, foremost'⟩ := resolves.foremost sound foremost
    rw [resolves.answer_value sound, mention.answer_mention sound, foremost'.asItem_eq]
  · intro succeeds
    obtain ⟨plain, plainResolves, same⟩ := resolves.inlined sound succeeds
    refine ⟨plain, plainResolves, ?_⟩
    rw [resolves.answer_value sound, same, Constant.asItem_eq_run]
    intro place how form occurs failing
    -- Every mention of the resolution stands for one of the constant, which does not fail.
    obtain ⟨type, occurs', mention⟩ := resolves.alike.flip.occurs occurs
    exact succeeds place how type occurs' ((mention.fails_iff sound).mpr failing)

/-- A guard fails its item from behind a true disjunction, and a value that is true replaces itself. -/
theorem constantItem_behind_or :
    bare.answer (.value .item
          (.connect .or (.literal true) (.mention .boolGuard (.atom (.broken 1))))) =
        .error (.constant "Broken 1") ∧
      ∃ plain, bare.Resolves (.connect .or (.literal true) (.panic 3)) plain ∧
        bare.answer (.value .item
          (.connect .or (.mention .value (.bool (.literal true))) (.panic 3))) =
          Answer.ofOutcome (plain.run Form.reading) := by
  constructor
  · have resolves : bare.Resolves
        (.connect .or (.literal true) (.mention .boolGuard (.atom (.broken 1))))
        (.connect .or (.literal true) (.mention .boolGuard (.atom (.broken 1)))) :=
      ⟨_, _, opens_bare, rfl, rfl⟩
    refine ((constantItem_evaluates_mentions sound_bare ⟨_, resolves⟩).2.1 [1] .boolGuard
      (.atom (.broken 1)) ⟨.within rfl (.here ..), ⟨"Broken 1", rfl⟩, ?_⟩).trans rfl
    intro place how type occurs failing
    have only := Constant.mem_occurrences_iff.mpr occurs
    simp [Constant.occurrences, Constant.placed] at only
    exact .inl only.1
  · have resolves : bare.Resolves
        (.connect .or (.mention .value (.bool (.literal true))) (.panic 3))
        (.connect .or (.mention .value (.bool (some true))) (.panic 3)) :=
      ⟨_, _, opens_bare, rfl, rfl⟩
    refine (constantItem_evaluates_mentions sound_bare ⟨_, resolves⟩).2.2 ?_
    intro place how type occurs failing
    have only := Constant.mem_occurrences_iff.mpr occurs
    simp [Constant.occurrences, Constant.placed] at only
    obtain ⟨_, rfl, rfl⟩ := only
    obtain ⟨message, answered⟩ := failing
    cases answered

/-- The order in which mentions are written is not the order in which they are evaluated. -/
theorem constantItem_order_differs :
    ¬ ∀ (program : Program) (constant : Constant Ty), program.Sound →
      (∃ resolved, program.Resolves constant resolved) →
      ∀ place how type, constant.Foremost (· < ·) program.Fails place how type →
        program.answer (.value .item constant) =
          program.answer (.value .item (.mention how type)) := by
  intro written
  have resolves : bare.Resolves
      (.choose (.literal false) (.mention .value (.atom (.broken 2)))
        (.mention .value (.atom (.broken 1))))
      (.choose (.literal false) (.mention .value (.atom (.broken 2)))
        (.mention .value (.atom (.broken 1)))) :=
    ⟨_, _, opens_bare, rfl, rfl⟩
  have same := written bare _ sound_bare ⟨_, resolves⟩ [1] .value (.atom (.broken 2))
    ⟨.within rfl (.here ..), ⟨"Broken 2", rfl⟩, by
      intro place how type occurs failing
      have either := Constant.mem_occurrences_iff.mpr occurs
      simp [Constant.occurrences, Constant.placed, Constant.leansPositive] at either
      rcases either with other | this
      · exact .inr (other.1 ▸ by decide)
      · exact .inl this.1⟩
  revert same
  decide

end Program

end TypeLists
