import TypeLists.Proofs.Normalization
import TypeLists.Proofs.Program

/-! The answers of queries about types in which nothing is found: what a program answers depends on the
normal forms alone. -/

namespace TypeLists

/-- The answer of a constant: its value, or its failure with the message of that. -/
def Answer.ofOutcome : Except Failure Bool → Answer
  | .ok value => .ok (.flag value)
  | .error failure => .error (.constant failure.message)

/-- What is found at the stage of formation is reported as far as it is not cut off. -/
theorem Finding.reported_formation (faults : List Fault) :
    reported (faults.map fun fault => ⟨.formation, fault⟩) = cutOff faults := by
  have early : faultsAt [.reported, .evaluation]
      (faults.map fun fault => (⟨.formation, fault⟩ : Finding)) = [] := by
    simp [faultsAt_eq_nil_iff]
  have late : faultsAt [.projection, .formation]
      (faults.map fun fault => (⟨.formation, fault⟩ : Finding)) = faults := by
    simp [faultsAt, List.filter_map, Function.comp_def]
  have last : faultsAt [.lifetimes]
      (faults.map fun fault => (⟨.formation, fault⟩ : Finding)) = [] := by
    simp [faultsAt_eq_nil_iff]
  rw [reported, early, late, last, List.nil_append]
  -- Without faults there is nothing to report at the later stage either.
  cases cutOff faults with
  | nil => rfl
  | cons fault rest => rfl

/-- A requirement is not met for one reason at most, so that nothing is cut off. -/
theorem Form.cutOff_unmet (limit : Nat) (trait : Trait) (form : Form) :
    Finding.cutOff (form.unmet limit trait) = form.unmet limit trait := by
  -- There is one fault at most, whichever condition is the first to fail.
  unfold unmet
  split_ifs
  · rfl
  · rfl
  · rfl
  · -- A single fault is cut off only by itself.
    simp only [Finding.cutOff, List.mem_singleton]
    split
    · rename_i same
      rw [same]
    · rfl

/-- A constant over forms is evaluated as soon as nothing is wrong with them. -/
theorem Constant.settle_clean (resolved : Constant Form) :
    Constant.settle (.clean resolved) =
      match resolved.asItem Form.reading with
      | .ok value => .clean (some value)
      | .error failure => ⟨none, [⟨.evaluation, .failed failure⟩]⟩ := rfl

namespace Scope

variable {scope : Scope} {result : Type}

/-- A body without findings gives its value. -/
theorem conclude_clean (quiet : scope.background = []) (value : result) :
    scope.conclude (.clean value) = .ok value :=
  conclude_eq_ok_iff.mpr ⟨quiet, rfl⟩

/-- A body in which faults are noted that are not cut off is refused for these. -/
theorem conclude_note (quiet : scope.background = []) {faults : List Fault}
    (whole : Finding.cutOff faults = faults) (value : result) :
    (scope.conclude do
      Checked.note .formation faults
      return value) = Fault.refuse faults value := by
  -- The faults are the only thing that can be found.
  have found : (do
      Checked.note .formation faults
      return value : Checked result).faults = faults := by
    rw [Checked.faults, Checked.findings_bind, Checked.findings_pure, List.append_nil,
      Checked.note, Finding.reported_formation, whole]
  rw [conclude, quiet, List.nil_append, found]
  rfl

/-- A body in which only a requirement is checked is refused for that requirement. -/
theorem conclude_unmet (quiet : scope.background = []) (form : Form) (trait : Trait)
    (value : result) :
    (scope.conclude do
      Checked.note .formation (form.unmet scope.limit trait)
      return value) = Fault.refuse (form.unmet scope.limit trait) value :=
  conclude_note quiet (Form.cutOff_unmet scope.limit trait form) value

/-- A constant over forms answers as its evaluation ends. -/
theorem conclude_settle (quiet : scope.background = []) (resolved : Constant Form) :
    (scope.conclude do
      let value ← Constant.settle (.clean resolved)
      return Value.flag (value.getD false)) = Answer.ofOutcome (resolved.asItem Form.reading) := by
  -- A failure is the only fault, so that the report consists of its message.
  rw [conclude, quiet, List.nil_append, Constant.settle_clean]
  cases resolved.asItem Form.reading with
  | ok value => rfl
  | error failure => rfl

end Scope

namespace Program

variable {program : Program} {type left right : Ty} {form form' : Form}

/-- Whether a type implements a trait is decided on its normal form. -/
theorem Gives.answer_implements (sound : program.Sound) (gives : program.Gives type form)
    (trait : Trait) :
    program.answer (.implements trait type) =
      Fault.refuse (form.unmet program.limit trait) (.flag true) := by
  obtain ⟨scope, plain, opens, expands, clean⟩ := gives
  have query : Expanding.run program.limit (Query.implements trait type).expand =
      .ok (.implements trait plain) :=
    Expanding.run_map_eq_ok_iff.mpr ⟨plain, expands, rfl⟩
  rw [opens.answer_eq query, ← opens.limit_eq, Query.answer, clean]
  exact Scope.conclude_unmet (sound.background_eq_nil opens) form trait _

/-- The length of a type is that of its normal form, if it is a list. -/
theorem Gives.answer_length (sound : program.Sound) (gives : program.Gives type form)
    (kind : ListKind) :
    program.answer (.length kind type) =
      Fault.refuse (form.unmet program.limit (.list kind)) (.number (form.length kind)) := by
  obtain ⟨scope, plain, opens, expands, clean⟩ := gives
  have query : Expanding.run program.limit (Query.length kind type).expand =
      .ok (.length kind plain) :=
    Expanding.run_map_eq_ok_iff.mpr ⟨plain, expands, rfl⟩
  rw [opens.answer_eq query, ← opens.limit_eq, Query.answer, clean]
  exact Scope.conclude_unmet (sound.background_eq_nil opens) form (.list kind) _

/-- Types are the same exactly if their normal forms are equal. -/
theorem Gives.answer_sameIdentity (sound : program.Sound) (gives : program.Gives left form)
    (gives' : program.Gives right form') :
    program.answer (.sameIdentity left right) = .ok (.flag (form = form')) := by
  -- Both types are normalized in the one scope of the program.
  obtain ⟨scope, plain, opens, expands, clean⟩ := gives
  obtain ⟨other, plain', opens', expands', clean'⟩ := gives'
  cases opens.unique opens'
  have query : Expanding.run program.limit (Query.sameIdentity left right).expand =
      .ok (.sameIdentity plain plain') :=
    ((left.regular_expand.lawful 0).run_map₂_eq_ok_iff (right.regular_expand.lawful 0)).mpr
      ⟨plain, plain', expands, expands', rfl⟩
  rw [opens.answer_eq query, Query.answer, clean, clean']
  exact Scope.conclude_clean (sound.background_eq_nil opens) _

/-- A constant item over well-formed types answers as its evaluation ends. -/
theorem Resolves.answer_value (sound : program.Sound) {constant : Constant Ty}
    {resolved : Constant Form} (resolves : program.Resolves constant resolved) :
    program.answer (.value .item constant) =
      Answer.ofOutcome (resolved.asItem Form.reading) := by
  obtain ⟨scope, plain, opens, expands, clean⟩ := resolves
  have query : Expanding.run program.limit (Query.value .item constant).expand =
      .ok (.value .item plain) :=
    Expanding.run_map_eq_ok_iff.mpr ⟨plain, expands, rfl⟩
  rw [opens.answer_eq query, Query.answer, clean]
  exact Scope.conclude_settle (sound.background_eq_nil opens) resolved

/-- A type is known to implement a trait only if it has a normal form that does. -/
theorem answer_implements_eq_ok_iff (sound : program.Sound) {trait : Trait} {value : Value} :
    program.answer (.implements trait type) = .ok value ↔
      ∃ form, program.Gives type form ∧ form.unmet program.limit trait = [] ∧
        value = .flag true := by
  -- An answer with a value means that nothing was found, neither in the type nor in the requirement.
  constructor
  · intro answered
    obtain ⟨scope, query, opens, expands, concluded⟩ := answer_eq_ok_iff.mp answered
    obtain ⟨plain, made, rfl⟩ := Expanding.run_map_eq_ok_iff.mp expands
    simp only [Query.answer, Scope.conclude_eq_ok_iff, Checked.bind_eq_clean_iff,
      Checked.note_eq_clean_iff, Checked.pure_eq_clean_iff, opens.limit_eq] at concluded
    obtain ⟨_, form, clean, _, met, rfl⟩ := concluded
    exact ⟨form, ⟨scope, plain, opens, made, clean⟩, met, rfl⟩
  · intro parts
    obtain ⟨form, gives, met, rfl⟩ := parts
    rw [gives.answer_implements sound, met]
    rfl

/-- Two types are compared only if both have normal forms, and then by these. -/
theorem answer_sameIdentity_eq_ok_iff (sound : program.Sound) {value : Value} :
    program.answer (.sameIdentity left right) = .ok value ↔
      ∃ form form', program.Gives left form ∧ program.Gives right form' ∧
        value = .flag (form = form') := by
  constructor
  · intro answered
    obtain ⟨scope, query, opens, expands, concluded⟩ := answer_eq_ok_iff.mp answered
    obtain ⟨plain, plain', made, made', rfl⟩ :=
      ((left.regular_expand.lawful 0).run_map₂_eq_ok_iff (right.regular_expand.lawful 0)).mp expands
    simp only [Query.answer, Scope.conclude_eq_ok_iff, Checked.bind_eq_clean_iff,
      Checked.pure_eq_clean_iff] at concluded
    obtain ⟨_, form, clean, form', clean', rfl⟩ := concluded
    exact ⟨form, form', ⟨scope, plain, opens, made, clean⟩, ⟨scope, plain', opens, made', clean'⟩,
      rfl⟩
  · intro parts
    obtain ⟨form, form', gives, gives', rfl⟩ := parts
    exact gives.answer_sameIdentity sound gives'

/-- A constant item has a value only if its types are well-formed and its evaluation succeeds. -/
theorem answer_value_eq_ok_iff (sound : program.Sound) {constant : Constant Ty} {value : Value} :
    program.answer (.value .item constant) = .ok value ↔
      ∃ resolved result, program.Resolves constant resolved ∧
        resolved.asItem Form.reading = .ok result ∧ value = .flag result := by
  -- A constant with a finding, or with a failing evaluation, is not answered with a value.
  constructor
  · intro answered
    obtain ⟨scope, query, opens, expands, concluded⟩ := answer_eq_ok_iff.mp answered
    obtain ⟨plain, made, rfl⟩ := Expanding.run_map_eq_ok_iff.mp expands
    simp only [Query.answer, Scope.conclude_eq_ok_iff, Checked.bind_eq_clean_iff,
      Constant.settle_eq_clean_iff, Checked.pure_eq_clean_iff] at concluded
    obtain ⟨_, _, ⟨resolved, result, clean, outcome, rfl⟩, rfl⟩ := concluded
    exact ⟨resolved, result, ⟨scope, plain, opens, made, clean⟩, outcome, rfl⟩
  · intro parts
    obtain ⟨resolved, result, resolves, outcome, rfl⟩ := parts
    rw [resolves.answer_value sound, outcome]
    rfl

/-- What is normalized without a finding in a program is well-formed and has no holes. -/
theorem Opens.wellFormed {scope : Scope} (opens : program.Opens scope) {plain : Ty}
    (clean : plain.normalize scope = .clean form) :
    form.WellFormed (fun _ => False) program.limit := by
  rw [← opens.limit_eq]
  obtain ⟨aliases, _, rfl⟩ := opens
  exact Ty.wellFormed_normalize not_false
    (fun name form inner => Scope.wellFormed_aliases inner) plain clean

/-- A normal form is well-formed and has no holes. -/
theorem Gives.wellFormed (gives : program.Gives type form) :
    form.WellFormed (fun _ => False) program.limit := by
  obtain ⟨scope, plain, opens, _, clean⟩ := gives
  exact opens.wellFormed clean

/-- Nothing is found in what a type with a normal form expands to. -/
theorem Gives.clean (gives : program.Gives type form) {scope : Scope} (opens : program.Opens scope)
    {plain : Ty} (expands : Expanding.run program.limit (type.expand 0) = .ok plain) :
    plain.normalize scope = .clean form := by
  obtain ⟨other, plain', opens', expands', clean⟩ := gives
  cases opens.unique opens'
  cases expands.symm.trans expands'
  exact clean

/-- A type has at most one normal form. -/
theorem Gives.unique (gives : program.Gives type form) (gives' : program.Gives type form') :
    form = form' := by
  -- Neither the scope nor the expansion leaves a choice.
  obtain ⟨scope, plain, opens, expands, clean'⟩ := gives'
  have clean := gives.clean opens expands
  cases clean.symm.trans clean'
  rfl

end Program

end TypeLists
