import TypeLists.Proofs.Query.Naming

/-! Lists whose elements fail: every element is evaluated on its own and what fails is reported together, except
that a broken rule of a type is reported alone, whatever else fails. -/

namespace TypeLists

namespace Form

/-- The chain of the values of some constants, some of which may have failed. -/
def boolChain (values : List (Option Bool)) : Form :=
  values.foldr .boolCons .boolNil

variable {limit : Nat}

theorem length?_boolChain (values : List (Option Bool)) :
    (boolChain values).length? .bools = some values.length := by
  induction values with
  | nil => rfl
  | cons value rest ih => exact congrArg (Option.map (· + 1)) ih

theorem listDepth_boolChain (values : List (Option Bool)) :
    (boolChain values).listDepth .bools = values.length + 1 := by
  induction values with
  | nil => rfl
  | cons value rest ih => exact congrArg (· + 1) ih

/-- A chain within the limit is a list, whether or not its elements have failed. -/
theorem unmet_boolChain {values : List (Option Bool)} (short : values.length < limit) :
    (boolChain values).unmet limit (.list .bools) = [] := by
  have deep : ¬ limit < (boolChain values).proofDepth (.list .bools) := by
    rw [proofDepth, listDepth_boolChain]
    omega
  have lists : (boolChain values).implements (.list .bools) := by
    rw [implements, length?_boolChain]
    rfl
  simp [unmet, deep, lists]

end Form

namespace Constant

/-- The failure of a constant of which nothing else is wrong, if it fails. -/
def failure? (scope : Scope) (constant : Constant Ty) : Option Failure :=
  match (constant.normalize scope).value.asItem Form.reading with
  | .error failure => some failure
  | .ok _ => none

variable {scope : Scope}

/-- A boolean list within the limit is the chain of its elements, and has no more findings than those. -/
theorem normalizeTokens_eq {tokens : List (Token (Constant Ty))}
    (short : (tokens.filterMap Token.value?).length ≤ scope.limit) :
    normalizeTokens scope tokens =
      ⟨.boolChain ((tokens.filterMap Token.value?).map fun constant =>
          (settle (constant.normalize scope)).value),
        (tokens.filterMap Token.value?).flatMap fun constant =>
          (settle (constant.normalize scope)).findings⟩ := by
  induction tokens with
  | nil => rfl
  | cons token rest ih =>
    cases token with
    | comma => exact ih short
    | element head =>
      have fewer : (rest.filterMap Token.value?).length < scope.limit := short
      -- The tail is a list within the limit, so that the node itself adds nothing.
      rw [normalizeTokens, ih fewer.le]
      refine Checked.ext rfl ?_
      simp only [Checked.findings_bind, Form.formed, Form.malformed, Checked.findings_pure]
      rw [Form.unmet_boolChain (by simpa using fewer)]
      simp [Checked.note, Token.value?]

/-- A constant of which nothing else is wrong has a failure to be found, or nothing. -/
theorem findings_settle_of_clean {constant : Constant Ty} {resolved : Constant Form}
    (clean : constant.normalize scope = .clean resolved) :
    (settle (constant.normalize scope)).findings =
      (constant.failure? scope).toList.map fun failure => ⟨.evaluation, .failed failure⟩ := by
  rw [failure?, clean, settle_clean]
  show _ = (Option.toList (match resolved.asItem Form.reading with
    | .error failure => some failure
    | .ok _ => none)).map _
  cases resolved.asItem Form.reading <;> rfl

end Constant

/-- Failures of evaluations are all reported. -/
theorem Finding.reported_evaluation (failures : List Failure) :
    reported (failures.map fun failure => ⟨.evaluation, .failed failure⟩) = failures.map .failed := by
  have early : faultsAt [.reported, .evaluation]
      (failures.map fun failure => (⟨.evaluation, .failed failure⟩ : Finding)) = failures.map .failed := by
    induction failures with
    | nil => rfl
    | cons failure rest ih => exact congrArg (Fault.failed failure :: ·) ih
  have other {stages : List Stage} (outside : .evaluation ∉ stages) : faultsAt stages
      (failures.map fun failure => (⟨.evaluation, .failed failure⟩ : Finding)) = [] := by
    simp [faultsAt_eq_nil_iff, outside]
  rw [reported, early, other (by simp), other (by simp)]
  simp [cutOff]

namespace Program

variable {program : Program} {tokens : List (Token (Constant Ty))} {constants : List (Constant Ty)}

/-- The constant fails by itself, with a text. -/
def FailsWith (program : Program) (constant : Constant Ty) (text : String) : Prop :=
  program.answer (.value .item constant) = .error (.constant text)

/-- A constant that resolves fails with a text exactly if that is the message of its failure. -/
theorem Resolves.failsWith_iff (sound : program.Sound) {constant : Constant Ty} {resolved : Constant Form}
    (resolves : program.Resolves constant resolved) {text : String} :
    program.FailsWith constant text ↔
      ∃ failure, constant.failure? program.scope = some failure ∧ failure.message = text := by
  obtain ⟨_, scope, opens, clean⟩ := resolves_iff.mp resolves
  rw [FailsWith, resolves.answer_value sound, Constant.failure?, ← opens.eq_scope, clean]
  show _ ↔ ∃ failure, (match resolved.asItem Form.reading with
    | .error failure => some failure
    | .ok _ => none) = some failure ∧ _
  cases resolved.asItem Form.reading <;> simp [Answer.ofOutcome]

/-- What is asked of a boolean list is refused for the failures of its elements, and for nothing else. -/
theorem conclude_boolList (sound : program.Sound) (writes : Literal.Writes tokens constants)
    (expands : program.Expands (.boolList tokens))
    (resolve : ∀ constant ∈ constants, ∃ resolved, program.Resolves constant resolved) {result : Type}
    {next : Form → Checked result}
    (quiet : ∀ values : List (Option Bool), values.length < program.limit →
      (next (.boolChain values)).findings = []) :
    program.scope.conclude (do next (← (Ty.boolList tokens).normalize program.scope)) =
      Fault.refuse ((constants.filterMap fun constant => constant.failure? program.scope).map .failed)
        (next (.boolChain (constants.map fun constant =>
          (Constant.settle (constant.normalize program.scope)).value))).value := by
  have written : tokens.filterMap Token.value? = constants := writes.filterMap
  have short : constants.length < program.limit := by
    have allowed := (Ty.fits_boolList_iff.mp (expands_type_iff.mp expands).2).1.2
    rw [written] at allowed
    omega
  have room : (tokens.filterMap Token.value?).length ≤ program.scope.limit := by
    rw [written]
    exact short.le
  have chain := Constant.normalizeTokens_eq room
  rw [written] at chain
  have findings : (constants.flatMap fun constant =>
      (Constant.settle (constant.normalize program.scope)).findings) =
      (constants.filterMap fun constant => constant.failure? program.scope).map
        fun failure => ⟨.evaluation, .failed failure⟩ := by
    rw [List.filterMap_eq_flatMap_toList, List.map_flatMap]
    refine List.flatMap_congr fun constant member => ?_
    obtain ⟨_, resolves⟩ := resolve constant member
    obtain ⟨_, scope, opens, clean⟩ := resolves_iff.mp resolves
    exact Constant.findings_settle_of_clean (opens.eq_scope ▸ clean)
  rw [findings] at chain
  rw [Scope.conclude, sound.background_scope, List.nil_append]
  show Fault.refuse (Finding.reported ((Constant.normalizeTokens program.scope tokens).findings ++ _)) _ = _
  simp only [Ty.normalize, chain, Checked.value_bind]
  rw [quiet _ (by simpa using short), List.append_nil, Finding.reported_evaluation]

/-- How the failures of the elements of a boolean list are collected. -/
structure CollectsFailures (program : Program) (tokens : List (Token (Constant Ty)))
    (constants : List (Constant Ty)) : Prop where
  /-- The list can be named exactly if no element fails. -/
  names_iff : program.Names (.boolList tokens) ↔
    ¬ ∃ constant ∈ constants, ∃ text, program.FailsWith constant text
  /--
  If elements fail, the distinct texts of all of them are reported in order, whatever is asked of the list.
  -/
  report : (∃ constant ∈ constants, ∃ text, program.FailsWith constant text) →
    ∃ texts : List String, texts.Pairwise (· < ·) ∧
      (∀ text, text ∈ texts ↔ ∃ constant ∈ constants, program.FailsWith constant text) ∧
      ∀ query ∈ [Query.name (.boolList tokens), .length .bools (.boolList tokens),
          .implements (.list .bools) (.boolList tokens)],
        program.answer query = .error (.constant (String.intercalate "; " texts))
  /-- If no element fails, their number is the length of the list. -/
  length : (¬ ∃ constant ∈ constants, ∃ text, program.FailsWith constant text) →
    program.answer (.length .bools (.boolList tokens)) = .ok (.number constants.length)

/-- The failures of a boolean list are those of its elements. -/
theorem collectsFailures (sound : program.Sound) (writes : Literal.Writes tokens constants)
    (expands : program.Expands (.boolList tokens))
    (resolve : ∀ constant ∈ constants, ∃ resolved, program.Resolves constant resolved) :
    program.CollectsFailures tokens constants := by
  let failures := constants.filterMap fun constant => constant.failure? program.scope
  have text_iff (text : String) : text ∈ Failure.messages failures ↔
      ∃ constant ∈ constants, program.FailsWith constant text := by
    rw [Failure.mem_messages_iff]
    constructor
    · rintro ⟨failure, member, same⟩
      obtain ⟨constant, member, fails⟩ := List.mem_filterMap.mp member
      obtain ⟨_, resolves⟩ := resolve constant member
      exact ⟨constant, member, (resolves.failsWith_iff sound).mpr ⟨failure, fails, same⟩⟩
    · rintro ⟨constant, member, fails⟩
      obtain ⟨_, resolves⟩ := resolve constant member
      obtain ⟨failure, fails, same⟩ := (resolves.failsWith_iff sound).mp fails
      exact ⟨failure, List.mem_filterMap.mpr ⟨constant, member, fails⟩, same⟩
  have none_iff : failures = [] ↔ ¬ ∃ constant ∈ constants, ∃ text, program.FailsWith constant text := by
    constructor
    · rintro none ⟨constant, member, text, fails⟩
      have reported := (text_iff text).mpr ⟨constant, member, fails⟩
      rw [none] at reported
      exact List.not_mem_nil reported
    · intro quiet
      rw [List.eq_nil_iff_forall_not_mem]
      intro failure member
      obtain ⟨constant, inside, fails⟩ :=
        (text_iff failure.message).mp (Failure.mem_messages_iff.mpr ⟨failure, member, rfl⟩)
      exact quiet ⟨constant, inside, _, fails⟩
  have fits := expands_type_iff.mp expands
  let chain := Form.boolChain (constants.map fun constant =>
    (Constant.settle (constant.normalize program.scope)).value)
  have named : program.answer (.name (.boolList tokens)) =
      Fault.refuse (failures.map .failed) (.text chain.name) := by
    rw [answer_of_fits fits, Query.answer]
    exact conclude_boolList sound writes expands resolve fun _ _ => rfl
  have measured : program.answer (.length .bools (.boolList tokens)) =
      Fault.refuse (failures.map .failed) (.number constants.length) := by
    have length : chain.length .bools = constants.length := by
      rw [Form.length, Form.length?_boolChain, List.length_map, Option.getD_some]
    rw [answer_of_fits fits, Query.answer, ← length]
    exact conclude_boolList sound writes expands resolve fun _ short => by
      simp [Form.unmet_boolChain short, Checked.note]
  have listed : program.answer (.implements (.list .bools) (.boolList tokens)) =
      Fault.refuse (failures.map .failed) (.flag true) := by
    rw [answer_of_fits fits, Query.answer]
    exact conclude_boolList sound writes expands resolve fun _ short => by
      simp [Form.unmet_boolChain short, Checked.note]
  constructor
  case names_iff =>
    rw [← none_iff, Names, named]
    simp only [Fault.refuse_eq_ok_iff, List.map_eq_nil_iff]
    constructor
    · rintro ⟨_, quiet, _⟩
      exact quiet
    · exact fun quiet => ⟨_, quiet, rfl⟩
  case report =>
    intro some
    have found : failures ≠ [] := fun none => none_iff.mp none some
    have refused {result : Type} (value : result) : Fault.refuse (failures.map .failed) value =
        .error (.constant (String.intercalate "; " (Failure.messages failures))) :=
      Fault.refuse_eq_error_iff.mpr (Refusal.ofFaults?_failed found)
    refine ⟨Failure.messages failures, Failure.pairwise_messages _, text_iff, ?_⟩
    simp only [List.forall_mem_cons, named, measured, listed, refused, true_and]
    exact fun _ member => absurd member List.not_mem_nil
  case length =>
    intro quiet
    rw [measured, none_iff.mpr quiet]
    rfl

/-- Lists with the same elements, in any order and any number, are refused for the same reason. -/
theorem same_refusal_of_same_elements (sound : program.Sound) {tokens' : List (Token (Constant Ty))}
    {constants' : List (Constant Ty)} (writes : Literal.Writes tokens constants)
    (writes' : Literal.Writes tokens' constants') (expands : program.Expands (.boolList tokens))
    (expands' : program.Expands (.boolList tokens'))
    (resolve : ∀ constant ∈ constants, ∃ resolved, program.Resolves constant resolved)
    (same : ∀ constant, constant ∈ constants ↔ constant ∈ constants') (refusal : Refusal) :
    program.answer (.name (.boolList tokens)) = .error refusal ↔
      program.answer (.name (.boolList tokens')) = .error refusal := by
  have collects := collectsFailures sound writes expands resolve
  have collects' := collectsFailures sound writes' expands' fun constant member =>
    resolve constant ((same constant).mpr member)
  by_cases some : ∃ constant ∈ constants, ∃ text, program.FailsWith constant text
  · obtain ⟨texts, increasing, members, fails⟩ := collects.report some
    obtain ⟨texts', increasing', members', fails'⟩ := collects'.report (by simpa only [← same] using some)
    -- An increasing list is known by its members.
    have equal : texts = texts' := increasing.eq_of_mem_iff increasing' fun text => by
      rw [members, members']
      simp only [same]
    rw [fails _ List.mem_cons_self, fails' _ List.mem_cons_self, equal]
  · have named (type : Ty) (names : program.Names type) :
        ¬ program.answer (.name type) = .error refusal := by
      obtain ⟨_, ok⟩ := names
      simp [ok]
    exact iff_of_false (named _ (collects.names_iff.mpr some))
      (named _ (collects'.names_iff.mpr (by simpa only [← same] using some)))

/--
A part of the type has to implement a trait and does not: nothing in the part was lost to a failed constant,
and the search for an implementation ends within the limit.
-/
def Violates (program : Program) (type : Ty) : Prop :=
  ∃ trait asked subject, program.Owes type (.implements trait asked subject) ∧
    (subject.normalize program.scope).value.settled ∧
    (subject.normalize program.scope).value.proofDepth trait ≤ program.limit ∧
    ¬ (subject.normalize program.scope).value.implements trait

/-- No proof that is owed within the type is deeper than the limit. -/
def Shallow (program : Program) (type : Ty) : Prop :=
  ∀ obligation, program.Owes type obligation → .tooDeep ∉ obligation.faults program.scope

/-- A violation is reported whatever else is wrong, unless a proof is too deep. -/
theorem Violates.answer_name {type : Ty} (violates : program.Violates type) (sound : program.Sound)
    (expands : program.Expands type) (shallow : program.Shallow type) :
    program.answer (.name type) = .error .illTyped := by
  obtain ⟨trait, asked, subject, owes, settled, room, lacks⟩ := violates
  have wrong : .illTyped ∈ (Obligation.implements trait asked subject).faults program.scope :=
    (Form.mem_unmet_iff asked).mpr ⟨settled, .inr ⟨room, lacks, rfl⟩⟩
  have quick : ¬ (type.normalize program.scope).Finds .tooDeep := by
    intro found
    rcases sound.acyclic.owes_of_finds found with ⟨obligation, owes, deep⟩ | ⟨same, _⟩
    · exact shallow obligation owes deep
    · cases same
  have found := sound.acyclic.finds_of_owes owes wrong (.inr quick)
  have reported := Checked.mem_faults_of_finds (type.accounts program.closed_scope).early found (.inr quick)
  rw [answer_name_of_expands expands, Query.answer_name, sound.background_scope, List.nil_append,
    Fault.refuse_eq_error_iff]
  exact Refusal.ofFaults?_of_illTyped
    (fun _ member => ordinary_of_finds (Checked.finds_of_mem_faults member)) reported

/--
A boolean list whose elements fail is refused for all of them together, in whatever order and number they
stand. A type that breaks a rule is refused for that, whatever constants fail in it and wherever they stand.
-/
theorem failures_are_collected (sound : program.Sound) :
    (∀ {tokens constants}, Literal.Writes tokens constants → program.Expands (.boolList tokens) →
      (∀ constant ∈ constants, ∃ resolved, program.Resolves constant resolved) →
        program.CollectsFailures tokens constants) ∧
    (∀ {tokens tokens' constants constants'}, Literal.Writes tokens constants →
      Literal.Writes tokens' constants' → program.Expands (.boolList tokens) →
      program.Expands (.boolList tokens') →
      (∀ constant ∈ constants, ∃ resolved, program.Resolves constant resolved) →
      (∀ constant, constant ∈ constants ↔ constant ∈ constants') → ∀ refusal,
        (program.answer (.name (.boolList tokens)) = .error refusal ↔
          program.answer (.name (.boolList tokens')) = .error refusal)) ∧
    ∀ {type}, program.Violates type → program.Expands type → program.Shallow type →
      program.answer (.name type) = .error .illTyped :=
  ⟨collectsFailures sound, same_refusal_of_same_elements sound,
    fun violates => violates.answer_name sound⟩

/--
Two failures are reported in order, however often they occur, and a wrong tail is reported instead of one.
-/
theorem failures_are_collected_of_panics :
    bare.answer (.length .bools (.boolList [.element (.literal true)])) = .ok (.number 1) ∧
    (bare.answer (.name (.boolList [.element (.panic 2), .comma, .element (.panic 1)])) =
        .error (.constant "panic 1; panic 2") ↔
      bare.answer (.name (.boolList
          [.element (.panic 1), .comma, .element (.panic 2), .comma, .element (.panic 1), .comma])) =
        .error (.constant "panic 1; panic 2")) ∧
    bare.answer (.name (.cons (.boolList [.element (.panic 2)]) (.atom .notEvaluable))) =
      .error .illTyped := by
  obtain ⟨collects, same, decides⟩ := failures_are_collected sound_bare
  have writes : Literal.Writes [.element (.literal true)] [(.literal true : Constant Ty)] := .inl rfl
  have few : Literal.Writes [.element (.panic 2), .comma, .element (.panic 1)]
    [(.panic 2 : Constant Ty), .panic 1] := .inl rfl
  have many : Literal.Writes
      [.element (.panic 1), .comma, .element (.panic 2), .comma, .element (.panic 1), .comma]
      [(.panic 1 : Constant Ty), .panic 2, .panic 1] :=
    .inr ⟨List.cons_ne_nil _ _, rfl⟩
  refine ⟨?_, ?_, ?_⟩
  · refine (collects writes ⟨_, _, opens_bare, rfl⟩ ?_).length ?_
    · simp only [List.mem_singleton, forall_eq]
      exact ⟨_, _, _, opens_bare, rfl, rfl⟩
    · simp only [List.mem_singleton, exists_eq_left]
      rintro ⟨_, fails⟩
      cases fails
  · refine same few many ⟨_, _, opens_bare, rfl⟩ ⟨_, _, opens_bare, rfl⟩ ?_ ?_ _
    · simp only [List.forall_mem_cons]
      exact ⟨⟨_, _, _, opens_bare, rfl, rfl⟩, ⟨_, _, _, opens_bare, rfl, rfl⟩, by simp⟩
    · simp only [List.mem_cons, List.not_mem_nil, or_false]
      tauto
  · refine decides ⟨.list .types, trivial, .atom .notEvaluable, .itself (by simp [Ty.obligations]),
      by decide, by decide, by decide⟩ ⟨_, _, opens_bare, rfl⟩ ?_
    rintro obligation (member | ⟨_, ⟨⟩, _⟩)
    have shallow : ∀ obligation ∈ (Ty.cons (.boolList [.element (.panic 2)]) (.atom .notEvaluable)).obligations,
        .tooDeep ∉ obligation.faults bare.scope := by decide
    exact shallow obligation member

/--
A violation is not reported of a part in which a constant fails, although it would be whatever the value of the
constant. And too deep a proof hides the violations.
-/
theorem failures_not_always_behind_violations :
    (¬ ∀ (program : Program) (context : Ty) (name : TypeName), program.Sound →
      (∀ value, program.answer (.name (context.fill name (.boolList [.element (.literal value)]))) =
        .error .illTyped) →
      ∀ index, program.answer (.name (context.fill name (.boolList [.element (.panic index)]))) =
        .error .illTyped) ∧
    ¬ ∀ (program : Program) (type : Ty), program.Sound → program.Expands type → program.Violates type →
      program.answer (.name type) = .error .illTyped := by
  constructor
  · intro claim
    have fails := claim bare (.cons (.atom .notEvaluable) (.named (.param .type))) (.param .type) sound_bare
      (by rintro (_ | _) <;> rfl) 2
    cases fails
  · intro claim
    have opens : (⟨1, [], []⟩ : Program).Opens (Scope.ofAliases 1 []) := ⟨[], rfl, rfl⟩
    have fails := claim ⟨1, [], []⟩
      (.tuple [.wrap .slice (.atom (.primitive .str)), trueGuard, .boolList []]) ⟨_, opens, rfl⟩
      ⟨_, _, opens, rfl⟩
      ⟨.sized, trivial, .atom (.primitive .str),
        .itself (by simp [Ty.obligations, Ty.allObligations, Wrapper.obligations, Wrapper.needsSized]),
        by decide, by decide, by decide⟩
    cases fails

end Program

end TypeLists
