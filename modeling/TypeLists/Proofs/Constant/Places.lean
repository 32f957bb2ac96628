import TypeLists.Proofs.Answer
import TypeLists.Proofs.Constant.Item
import TypeLists.Proofs.Constant.Preview
import TypeLists.Proofs.Constant.Tripping
import TypeLists.Proofs.Report

/-! Constant items and function bodies: both places agree on every value and on every rule that is broken, and
they differ only in which of the failing mentions they report. -/

namespace TypeLists

namespace Constant

variable {type : Type} {reading : Reading type} {constant : Constant type} {failure : Failure}

/-- The failures of a constant are those of the mentions at its places. -/
theorem mem_failures_mentions_iff :
    failure ∈ failures reading constant.mentions ↔
      ∃ place how subject, constant.Occurs place how subject ∧
        reading.outcome how subject = .error failure := by
  rw [mem_failures_iff, mentions_eq]
  constructor
  · intro found
    obtain ⟨_, member, fails⟩ := found
    obtain ⟨⟨place, how, subject⟩, inside, rfl⟩ := List.mem_map.mp member
    exact ⟨place, how, subject, mem_occurrences_iff.mp inside, fails⟩
  · intro found
    obtain ⟨place, how, subject, occurs, fails⟩ := found
    exact ⟨_, List.mem_map.mpr ⟨_, mem_occurrences_iff.mpr occurs, rfl⟩, fails⟩

/-- What is foreseen of known types is the failure of a mention. -/
theorem Foreseen.mem_failures (foreseen : constant.Foreseen reading.outlook failure) :
    failure ∈ failures reading constant.mentions := by
  obtain ⟨place, how, subject, occurs, _, fails⟩ := foreseen
  exact mem_failures_mentions_iff.mpr ⟨place, how, subject, occurs, Option.some.inj fails⟩

/-- Without failing mentions, a preview finds nothing. -/
theorem preview_failures_eq_nil (quiet : failures reading constant.mentions = []) :
    (constant.preview reading.outlook).failures = [] := by
  rw [List.eq_nil_iff_forall_not_mem] at quiet ⊢
  intro failure member
  exact quiet failure (mem_preview_failures_iff.mp member).mem_failures

/-- Without failing mentions, the run decides in a constant item. -/
theorem asItem_of_quiet (quiet : failures reading constant.mentions = []) :
    constant.asItem reading = constant.run reading := by
  rw [asItem, quiet]

/-- Without failing mentions, the run decides in a function body. -/
theorem asBody_of_quiet (quiet : failures reading constant.mentions = []) :
    constant.asBody reading = (constant.run reading).mapError .stopped := by
  rw [asBody, quiet, preview_failures_eq_nil quiet]

/-- A constant item has a value exactly if no mention fails and the run has the value. -/
theorem asItem_eq_ok_iff {value : Bool} :
    constant.asItem reading = .ok value ↔
      failures reading constant.mentions = [] ∧ constant.run reading = .ok value := by
  constructor
  · intro evaluates
    have quiet := failures_eq_nil_of_asItem evaluates
    exact ⟨quiet, asItem_of_quiet quiet ▸ evaluates⟩
  · intro parts
    rw [asItem_of_quiet parts.1, parts.2]

/--
A failing mention at a place is reported of a function body: it is on an open way, or no failing one is.
-/
def Reported (outlook : Outlook type) (fails : Mention → type → Prop) (constant : Constant type)
    (place : List Nat) : Prop :=
  constant.Ahead outlook place ∨ ∀ place' how subject, constant.Occurs place' how subject →
    fails how subject → ¬ constant.Ahead outlook place'

/-- A function body with failing mentions is refused for those that are reported. -/
theorem asBody_of_failures (some : failures reading constant.mentions ≠ []) :
    ∃ found, constant.asBody reading = .error (.refused found) ∧
      ∀ failure, failure ∈ found ↔ ∃ place how subject, constant.Occurs place how subject ∧
        reading.outcome how subject = .error failure ∧
        constant.Reported reading.outlook
          (fun how subject => ∃ failure, reading.outcome how subject = .error failure) place := by
  obtain ⟨first, others, all⟩ := List.exists_cons_of_ne_nil some
  have foreseen {failure : Failure} : failure ∈ (constant.preview reading.outlook).failures ↔
      constant.Foreseen reading.outlook failure := mem_preview_failures_iff
  cases preview : (constant.preview reading.outlook).failures with
  | nil =>
    -- Nothing fails on an open way, so that all failing mentions are reported.
    have none : ∀ place how subject, constant.Occurs place how subject →
        (∃ failure, reading.outcome how subject = .error failure) →
          ¬ constant.Ahead reading.outlook place := by
      intro place how subject occurs fails ahead
      obtain ⟨failure, fails⟩ := fails
      have member := foreseen.mpr ⟨place, how, subject, occurs, ahead, congrArg Option.some fails⟩
      simp [preview] at member
    refine ⟨failures reading constant.mentions, by rw [asBody, preview, all], fun failure => ?_⟩
    rw [mem_failures_mentions_iff]
    constructor
    · intro found
      obtain ⟨place, how, subject, occurs, fails⟩ := found
      exact ⟨place, how, subject, occurs, fails, .inr none⟩
    · intro found
      obtain ⟨place, how, subject, occurs, fails, _⟩ := found
      exact ⟨place, how, subject, occurs, fails⟩
  | cons failure' rest =>
    refine ⟨failure' :: rest, by rw [asBody, preview, all], fun failure => ?_⟩
    rw [← preview, foreseen]
    constructor
    · intro found
      obtain ⟨place, how, subject, occurs, ahead, fails⟩ := found
      exact ⟨place, how, subject, occurs, Option.some.inj fails, .inl ahead⟩
    · intro found
      obtain ⟨place, how, subject, occurs, fails, ahead | none⟩ := found
      · exact ⟨place, how, subject, occurs, ahead, congrArg Option.some fails⟩
      · -- Something fails on an open way, since the preview is not empty.
        have member : failure' ∈ (constant.preview reading.outlook).failures := by simp [preview]
        obtain ⟨place', how', subject', occurs', ahead', fails'⟩ := foreseen.mp member
        exact absurd ahead' (none place' how' subject' occurs' ⟨failure', Option.some.inj fails'⟩)

/-- A function body has a value exactly if a constant item has it. -/
theorem asBody_eq_ok_iff {value : Bool} :
    constant.asBody reading = .ok value ↔ constant.asItem reading = .ok value := by
  by_cases quiet : failures reading constant.mentions = []
  · rw [asBody_of_quiet quiet, asItem_of_quiet quiet]
    cases constant.run reading <;> simp [Except.mapError]
  · obtain ⟨found, refused, _⟩ := asBody_of_failures quiet
    rw [asItem_eq_ok_iff, refused]
    simp [quiet]

end Constant

/-- What was reported of a constant is reported of the body around it. -/
theorem Finding.reported_again (faults : List Fault) :
    reported (faults.map fun fault => ⟨.reported, fault⟩) = faults := by
  have early : faultsAt [.reported, .evaluation]
      (faults.map fun fault => (⟨.reported, fault⟩ : Finding)) = faults := by
    have all : (faults.map fun fault => (⟨.reported, fault⟩ : Finding)).filter
        (fun finding => finding.stage ∈ [Stage.reported, .evaluation]) =
          faults.map fun fault => ⟨.reported, fault⟩ :=
      List.filter_eq_self.mpr (by simp)
    rw [faultsAt, all, List.map_map]
    exact List.map_id faults
  have late : faultsAt [.projection, .formation]
      (faults.map fun fault => (⟨.reported, fault⟩ : Finding)) = [] := by
    simp [faultsAt_eq_nil_iff]
  have last : faultsAt [.lifetimes] (faults.map fun fault => (⟨.reported, fault⟩ : Finding)) = [] := by
    simp [faultsAt_eq_nil_iff]
  have none : cutOff [] = [] := rfl
  rw [reported, early, late, last, none, List.append_nil]
  cases faults <;> rfl

/-- The refusal reports failing evaluations, and no literal, rule or depth. -/
def Refusal.Evaluated : Refusal → Prop
  | constant _ | panic _ => True
  | _ => False

/-- A failing constant does not hide what else refuses a program, except for too deep a proof. -/
theorem Refusal.ofFaults?_append_failed {faults : List Fault} {failure : Failure} {refusal : Refusal}
    (stated : ¬ refusal.Evaluated) (shallow : refusal ≠ .tooDeep) :
    ofFaults? (faults ++ [.failed failure]) = some refusal ↔ ofFaults? faults = some refusal := by
  -- Behind the broken rules, both sides come to failing constants or to too deep a proof.
  have failing (report : String) : (some (.constant report) : Option Refusal) ≠ some refusal := by
    rintro ⟨⟩
    exact stated trivial
  have other : (if Fault.tooDeep ∈ faults then some Refusal.tooDeep else none) ≠ some refusal := by
    split_ifs
    · exact fun same => shallow (Option.some.inj same).symm
    · simp
  unfold ofFaults?
  simp only [List.mem_append, List.mem_singleton, reduceCtorEq, or_false]
  generalize (if Fault.tooDeep ∈ faults then some Refusal.tooDeep else none) = otherwise at other ⊢
  split_ifs
  · rfl
  · rfl
  · rfl
  · rfl
  · rfl
  · cases (faults ++ [Fault.failed failure]).filterMap Fault.failure? with
    | nil =>
      cases faults.filterMap Fault.failure? with
      | nil => exact iff_of_false other other
      | cons => exact iff_of_false other (failing _)
    | cons =>
      cases faults.filterMap Fault.failure? with
      | nil => exact iff_of_false (failing _) other
      | cons => exact iff_of_false (failing _) (failing _)

namespace Query

variable {scope : Scope} {constant : Constant Ty}

/-- A constant in which a fault is found is refused for it in both places. -/
theorem answer_value_of_faults (faulty : (constant.normalize scope).faults ≠ []) :
    (Query.value .item constant).answer scope = (Query.value .body constant).answer scope := by
  have same : (do
      let value ← Constant.settle (constant.normalize scope)
      return Value.flag (value.getD false) : Checked Value).faults =
        (constant.normalize scope).faults := by
    rw [Constant.settle_faulty faulty]
    simp [Checked.faults, Finding.reported_again]
  have refused : Refusal.ofFaults? (scope.background ++ (constant.normalize scope).faults) ≠ none := by
    simp [Refusal.ofFaults?_eq_none_iff, faulty]
  obtain ⟨refusal, refused⟩ := Option.ne_none_iff_exists'.mp refused
  simp only [answer, Scope.conclude, same, Fault.refuse, refused]
  rfl

/-- A constant over well-formed types is refused with the background, or for its own failure. -/
theorem answer_item_of_clean {resolved : Constant Form}
    (clean : constant.normalize scope = .clean resolved) :
    (Query.value .item constant).answer scope =
      match resolved.asItem Form.reading with
      | .ok result => Fault.refuse scope.background (.flag result)
      | .error failure => Fault.refuse (scope.background ++ [.failed failure]) (.flag false) := by
  simp only [answer, Scope.conclude, clean, Constant.settle_clean]
  cases resolved.asItem Form.reading with
  | ok result =>
    show Fault.refuse (scope.background ++ []) _ = _
    rw [List.append_nil]
    rfl
  | error failure => rfl

/-- A function body over well-formed types is refused with the background, or ends as it does. -/
theorem answer_body_of_clean {resolved : Constant Form}
    (clean : constant.normalize scope = .clean resolved) :
    (Query.value .body constant).answer scope = (do
      Fault.refuse scope.background ()
      (Refusal.ofBody (resolved.asBody Form.reading)).map Value.flag) := by
  have none : (Checked.clean resolved).faults = [] := rfl
  simp only [answer, Scope.conclude, clean, none, List.append_nil, Fault.refuse]
  cases Refusal.ofFaults? scope.background with
  | some refusal => rfl
  | none =>
    show (Refusal.ofBody (resolved.asBody Form.reading) >>= fun result => pure (Value.flag result)) = _
    cases Refusal.ofBody (resolved.asBody Form.reading) <;> rfl

/-- Both places agree on values. -/
theorem answer_places_eq_ok_iff {value : Value} :
    (Query.value .item constant).answer scope = .ok value ↔
      (Query.value .body constant).answer scope = .ok value := by
  by_cases faulty : (constant.normalize scope).faults = []
  · have clean := Checked.faults_eq_nil_iff.mp faulty
    rw [answer_item_of_clean clean, answer_body_of_clean clean]
    by_cases quiet : scope.background = []
    · -- Without a background, the two places evaluate the same constant.
      have same {result : Bool} :
          (constant.normalize scope).value.asBody Form.reading = .ok result ↔
            (constant.normalize scope).value.asItem Form.reading = .ok result :=
        Constant.asBody_eq_ok_iff
      rw [quiet]
      cases item : (constant.normalize scope).value.asItem Form.reading with
      | ok result =>
        rw [same.mpr item]
        exact Iff.rfl
      | error failure =>
        cases body : (constant.normalize scope).value.asBody Form.reading with
        | ok result => simp [same.mp body] at item
        | error bodyFailure =>
          refine iff_of_false (fun answered => ?_) nofun
          exact absurd (Fault.refuse_eq_ok_iff.mp answered).1 (by simp)
    · -- A fault in the background refuses both of them.
      refine iff_of_false (fun answered => ?_) (fun answered => ?_)
      · split at answered
        · exact quiet (Fault.refuse_eq_ok_iff.mp answered).1
        · exact absurd (Fault.refuse_eq_ok_iff.mp answered).1 (by simp)
      · obtain ⟨refusal, background⟩ := Option.ne_none_iff_exists'.mp
          (mt Refusal.ofFaults?_eq_none_iff.mp quiet)
        rw [Fault.refuse_eq_error_iff.mpr background] at answered
        cases answered
  · rw [answer_value_of_faults faulty]

/-- Both places agree on what is no failing evaluation, except for too deep a proof in the background. -/
theorem answer_places_eq_error_iff {refusal : Refusal} (stated : ¬ refusal.Evaluated)
    (shallow : refusal = .tooDeep → scope.background = []) :
    (Query.value .item constant).answer scope = .error refusal ↔
      (Query.value .body constant).answer scope = .error refusal := by
  by_cases faulty : (constant.normalize scope).faults = []
  · have clean := Checked.faults_eq_nil_iff.mp faulty
    rw [answer_item_of_clean clean, answer_body_of_clean clean]
    by_cases quiet : scope.background = []
    · -- Over well-formed types only evaluations fail.
      rw [quiet]
      refine iff_of_false (fun refused => ?_) (fun refused => ?_)
      · split at refused
        · cases refused
        · cases refused
          exact stated trivial
      · cases body : (constant.normalize scope).value.asBody Form.reading with
        | ok result =>
          rw [body] at refused
          cases refused
        | error bodyFailure =>
          rw [body] at refused
          cases bodyFailure <;> (cases refused; exact stated trivial)
    · obtain ⟨other, background⟩ := Option.ne_none_iff_exists'.mp
        (mt Refusal.ofFaults?_eq_none_iff.mp quiet)
      have body : (do
          Fault.refuse scope.background ()
          (Refusal.ofBody ((constant.normalize scope).value.asBody Form.reading)).map Value.flag) =
            .error other := by
        rw [Fault.refuse_eq_error_iff.mpr background]
        rfl
      rw [body]
      cases (constant.normalize scope).value.asItem Form.reading with
      | ok result =>
        simp only [Fault.refuse_eq_error_iff, background, Option.some_inj, Except.error.injEq]
      | error failure =>
        -- The failing constant comes on top of a background that is refused before it.
        simp only [Fault.refuse_eq_error_iff, background, Option.some_inj, Except.error.injEq,
          Refusal.ofFaults?_append_failed stated (mt shallow quiet)]
  · rw [answer_value_of_faults faulty]

end Query

namespace Program

variable {program : Program} {constant : Constant Ty} {resolved : Constant Form}

/-- The literals of an expression expand in both places alike. -/
theorem expansion_places (program : Program) (constant : Constant Ty) :
    program.expansion (.value .item constant) = program.expansion (.value .body constant) := rfl

/-- A function body over well-formed types answers as its evaluation ends. -/
theorem Resolves.answer_body (sound : program.Sound) (resolves : program.Resolves constant resolved) :
    program.answer (.value .body constant) =
      (Refusal.ofBody (resolved.asBody Form.reading)).map Value.flag := by
  obtain ⟨scope, plain, opens, expands, clean⟩ := resolves
  have query : Expanding.run program.limit (Query.value .body constant).expand =
      .ok (.value .body plain) :=
    Expanding.run_map_eq_ok_iff.mpr ⟨plain, expands, rfl⟩
  rw [opens.answer_eq query, Query.answer_body_of_clean clean, sound.background_eq_nil opens]
  rfl

/-- What the mentions of a resolution come to is what those of the constant come to. -/
theorem Resolves.exists_occurs_iff (sound : program.Sound)
    (resolves : program.Resolves constant resolved) {places : List Nat → Prop} {text : String} :
    (∃ place how form, resolved.Occurs place how form ∧
        (∃ failure, Form.reading.outcome how form = .error failure ∧ failure.message = text) ∧
          places place) ↔
      ∃ place how type, constant.Occurs place how type ∧
        program.answer (.value .item (.mention how type)) = .error (.constant text) ∧
          places place := by
  have answers {how : Mention} {type : Ty} {form : Form}
      (mention : program.Resolves (.mention how type) (.mention how form)) :
      (∃ failure, Form.reading.outcome how form = .error failure ∧ failure.message = text) ↔
        program.answer (.value .item (.mention how type)) = .error (.constant text) := by
    rw [mention.answer_mention sound]
    cases Form.reading.outcome how form <;> simp [Answer.ofOutcome]
  constructor
  · intro found
    obtain ⟨place, how, form, occurs, fails, placed⟩ := found
    obtain ⟨type, occurs', mention⟩ := resolves.alike.flip.occurs occurs
    exact ⟨place, how, type, occurs', (answers mention).mp fails, placed⟩
  · intro found
    obtain ⟨place, how, type, occurs, fails, placed⟩ := found
    obtain ⟨form, occurs', mention⟩ := resolves.alike.occurs occurs
    exact ⟨place, how, form, occurs', (answers mention).mpr fails, placed⟩

/-- How a constant item and a function body with the same expression over well-formed types correspond. -/
structure Corresponds (program : Program) (constant : Constant Ty) (resolved : Constant Form) : Prop where
  /-- A mention fails exactly if both places are refused for failing constants. -/
  fails_iff : (∃ place how type, constant.Occurs place how type ∧ program.Fails how type) ↔
    (∃ message, program.answer (.value .item constant) = .error (.constant message)) ∧
      ∃ message, program.answer (.value .body constant) = .error (.constant message)
  /-- The constant item reports the first mention that fails. -/
  item : ∀ {place how type}, constant.Foremost constant.Before program.Fails place how type →
    program.answer (.value .item constant) = program.answer (.value .item (.mention how type))
  /-- The function body reports the distinct messages of what fails on its open ways, or of all that fails. -/
  body : (∃ place how type, constant.Occurs place how type ∧ program.Fails how type) →
    ∃ texts : List String, texts.Pairwise (· < ·) ∧
      program.answer (.value .body constant) =
        .error (.constant (String.intercalate "; " texts)) ∧
      ∀ text, text ∈ texts ↔ ∃ place how type, constant.Occurs place how type ∧
        program.answer (.value .item (.mention how type)) = .error (.constant text) ∧
          (resolved.Ahead Form.reading.outlook place ∨
            ∀ place' how' type', constant.Occurs place' how' type' → program.Fails how' type' →
              ¬ resolved.Ahead Form.reading.outlook place')
  /-- What the expression runs into by itself stands on an open way. -/
  reached : ∀ {index}, resolved.run Form.reading = .error (.broken index) →
    ∃ place how type, constant.Occurs place how type ∧ resolved.Ahead Form.reading.outlook place ∧
      program.answer (.value .item (.mention how type)) =
        .error (.constant (Failure.broken index).message)
  /-- Without failing mentions, the item fails as the body does when it runs. -/
  stops_iff : (∀ place how type, constant.Occurs place how type → ¬ program.Fails how type) →
    ∀ message, program.answer (.value .item constant) = .error (.constant message) ↔
      program.answer (.value .body constant) = .error (.panic message)

/-- A failing mention of a constant is one of its resolution. -/
theorem Resolves.exists_fails_iff (sound : program.Sound)
    (resolves : program.Resolves constant resolved) :
    (∃ place how type, constant.Occurs place how type ∧ program.Fails how type) ↔
      Constant.failures Form.reading resolved.mentions ≠ [] := by
  constructor
  · intro found
    obtain ⟨place, how, type, occurs, failing⟩ := found
    obtain ⟨form, occurs', mention⟩ := resolves.alike.occurs occurs
    obtain ⟨failure, outcome⟩ := (mention.fails_iff sound).mp failing
    exact List.ne_nil_of_mem (Constant.mem_failures_mentions_iff.mpr ⟨place, how, form, occurs', outcome⟩)
  · intro some
    obtain ⟨failure, member⟩ := List.exists_mem_of_ne_nil _ some
    obtain ⟨place, how, form, occurs, outcome⟩ := Constant.mem_failures_mentions_iff.mp member
    obtain ⟨type, occurs', mention⟩ := resolves.alike.flip.occurs occurs
    exact ⟨place, how, type, occurs', (mention.fails_iff sound).mpr ⟨failure, outcome⟩⟩

/-- A failing mention stands on an open way of a constant exactly if one does in its resolution. -/
theorem Resolves.none_ahead_iff (sound : program.Sound)
    (resolves : program.Resolves constant resolved) (outlook : Outlook Form) :
    (∀ place how form, resolved.Occurs place how form →
        (∃ failure, Form.reading.outcome how form = .error failure) →
          ¬ resolved.Ahead outlook place) ↔
      ∀ place how type, constant.Occurs place how type → program.Fails how type →
        ¬ resolved.Ahead outlook place := by
  constructor
  · intro none place how type occurs failing
    obtain ⟨form, occurs', mention⟩ := resolves.alike.occurs occurs
    exact none place how form occurs' ((mention.fails_iff sound).mp failing)
  · intro none place how form occurs failing
    obtain ⟨type, occurs', mention⟩ := resolves.alike.flip.occurs occurs
    exact none place how type occurs' ((mention.fails_iff sound).mpr failing)

/-- The two places correspond for every expression over well-formed types. -/
theorem Resolves.corresponds (sound : program.Sound)
    (resolves : program.Resolves constant resolved) : program.Corresponds constant resolved where
  fails_iff := by
    rw [resolves.exists_fails_iff sound, resolves.answer_value sound, resolves.answer_body sound]
    constructor
    · intro some
      obtain ⟨found, body, _⟩ := Constant.asBody_of_failures some
      obtain ⟨failure, rest, all⟩ := List.exists_cons_of_ne_nil some
      refine ⟨⟨failure.message, ?_⟩, ⟨Failure.report found, ?_⟩⟩
      · rw [Constant.asItem, all]
        rfl
      · rw [body]
        rfl
    · intro refused none
      -- Without failing mentions, a function body is accepted and at worst stops when it runs.
      obtain ⟨_, message, body⟩ := refused
      rw [Constant.asBody_of_quiet none] at body
      cases run : resolved.run Form.reading <;> (rw [run] at body; cases body)
  item := by
    intro place how type foremost
    obtain ⟨form, mention, foremost'⟩ := resolves.foremost sound foremost
    rw [resolves.answer_value sound, mention.answer_mention sound, foremost'.asItem_eq]
  body := by
    intro some
    obtain ⟨found, body, reported⟩ :=
      Constant.asBody_of_failures ((resolves.exists_fails_iff sound).mp some)
    refine ⟨Failure.messages found, Failure.pairwise_messages found, ?_, ?_⟩
    · rw [resolves.answer_body sound, body]
      rfl
    · intro text
      have ahead := resolves.none_ahead_iff sound Form.reading.outlook
      rw [Failure.mem_messages_iff, ← ahead, ← resolves.exists_occurs_iff sound]
      simp only [reported, Constant.Reported]
      constructor
      · intro member
        obtain ⟨failure, ⟨place, how, form, occurs, fails, placed⟩, message⟩ := member
        exact ⟨place, how, form, occurs, ⟨failure, fails, message⟩, placed⟩
      · intro member
        obtain ⟨place, how, form, occurs, ⟨failure, fails, message⟩, placed⟩ := member
        exact ⟨failure, ⟨place, how, form, occurs, fails, placed⟩, message⟩
  reached := by
    intro index broken
    obtain ⟨place, how, form, occurs, ahead, fails⟩ := Constant.foreseen_of_run broken
    obtain ⟨type, occurs', mention⟩ := resolves.alike.flip.occurs occurs
    refine ⟨place, how, type, occurs', ahead, ?_⟩
    rw [mention.answer_mention sound, Option.some.inj fails]
    rfl
  stops_iff := by
    intro succeeds message
    have quiet : Constant.failures Form.reading resolved.mentions = [] := by
      by_contra some
      obtain ⟨place, how, type, occurs, failing⟩ := (resolves.exists_fails_iff sound).mpr some
      exact succeeds place how type occurs failing
    rw [resolves.answer_value sound, resolves.answer_body sound, Constant.asItem_of_quiet quiet,
      Constant.asBody_of_quiet quiet]
    cases resolved.run Form.reading with
    | ok result => simp [Answer.ofOutcome, Refusal.ofBody, Except.mapError, Except.map]
    | error failure => simp [Answer.ofOutcome, Refusal.ofBody, Except.mapError, Except.map]

end Program

end TypeLists
