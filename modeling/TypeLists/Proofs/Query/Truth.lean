import TypeLists.Proofs.Constant.Exposure
import TypeLists.Proofs.Constant.Places
import TypeLists.Proofs.Form.Truth

/-! The values of boolean expressions: classical logic, up to the broken expressions that the evaluation
reaches. -/

namespace TypeLists

/-- A mention in a function body ends as what it mentions, and is refused if that fails. -/
theorem Constant.asBody_mention {type : Type} (reading : Reading type) (how : Mention)
    (subject : type) :
    (Constant.mention how subject).asBody reading =
      (reading.outcome how subject).mapError fun failure => .refused [failure] := by
  -- The preview knows the outcome, and no other mention is there to fail.
  cases outcome : reading.outcome how subject with
  | error failure =>
    simp only [asBody, preview, Reading.outlook, outcome, Preview.whole]
    rfl
  | ok value =>
    have quiet : failures reading (Constant.mention how subject).mentions = [] := by
      simp [failures, mentions, outcome]
    rw [asBody_of_quiet quiet, run, outcome]
    rfl

namespace Program

variable {program : Program} {type : Ty} {form : Form}

/-- A type implements a trait only in a program that is in order, and by its normal form. -/
theorem exists_gives_of_implements {trait : Trait} {value : Value}
    (implements : program.answer (.implements trait type) = .ok value) :
    program.Sound ∧ ∃ form, program.Gives type form ∧ form.unmet program.limit trait = [] := by
  have sound : program.Sound := by
    obtain ⟨scope, query, opens, expands, concluded⟩ := answer_eq_ok_iff.mp implements
    obtain ⟨plain, _, rfl⟩ := Expanding.run_map_eq_ok_iff.mp expands
    exact ⟨scope, opens, (Scope.conclude_eq_ok_iff.mp concluded).1⟩
  obtain ⟨form, gives, met, _⟩ := (answer_implements_eq_ok_iff sound).mp implements
  exact ⟨sound, form, gives, met⟩

/-- Both in a constant item and in a function body, the value of a type is that of its normal form. -/
theorem Gives.answer_value (sound : program.Sound) (gives : program.Gives type form)
    (met : form.unmet program.limit .boolExpr = []) (place : Place) :
    program.answer (.value place (.mention .value type)) = Answer.ofOutcome form.value := by
  have resolves : program.Resolves (.mention .value type) (.mention .value form) :=
    resolves_value_iff.mpr ⟨form, gives, met, rfl⟩
  cases place with
  | item => exact resolves.answer_mention sound
  | body =>
    rw [resolves.answer_body sound, Constant.asBody_mention]
    -- The report of one failure is its message.
    show (Refusal.ofBody (form.value.mapError _)).map Value.flag = _
    cases form.value with
    | ok value => rfl
    | error failure => rfl

/-- What the value of a boolean expression comes to, and when it fails. -/
structure Classical (program : Program) (type : Ty) (form : Form) (place : Place) : Prop where
  /-- The leaves that are reached are literals, comparisons of lists and expressions that are broken. -/
  leaves : ∀ position leaf, form.Reaches position leaf → leaf.Atomic
  /-- The evaluation fails exactly if something broken is reached. -/
  fails : (∃ refusal, program.answer (.value place (.mention .value type)) = .error refusal) ↔
    ∃ position index, form.Reaches position (.atom (.broken index))
  /-- It then fails with the message of the leftmost broken expression that is reached. -/
  message : ∀ refusal, program.answer (.value place (.mention .value type)) = .error refusal ↔
    ∃ index, form.FirstBroken index ∧ refusal = .constant ("Broken " ++ toString index)
  /-- Otherwise the value is the truth of the formula, whatever is held of what is no formula. -/
  truth : (¬ ∃ position index, form.Reaches position (.atom (.broken index))) → ∀ other,
    program.answer (.value place (.mention .value type)) = .ok (.flag (form.truth other))

/-- The value of a boolean expression is classical, as that of its normal form is. -/
theorem Gives.classical (sound : program.Sound) (gives : program.Gives type form)
    (met : form.unmet program.limit .boolExpr = []) (place : Place) :
    program.Classical type form place := by
  have wellFormed := gives.wellFormed
  have implements := ((Form.unmet_eq_nil_iff (wellFormed.settled not_false)).mp met).2
  have evaluable := (Form.implements_boolExpr_iff wellFormed.1).mp implements
  have answer := gives.answer_value sound met place
  have message (refusal : Refusal) :
      program.answer (.value place (.mention .value type)) = .error refusal ↔
        ∃ index, form.FirstBroken index ∧ refusal = .constant ("Broken " ++ toString index) := by
    rw [answer]
    constructor
    · intro fails
      cases outcome : form.value with
      | ok value =>
        rw [outcome] at fails
        cases fails
      | error failure =>
        obtain ⟨index, rfl, first⟩ := evaluable.value_eq_error_iff.mp outcome
        rw [outcome] at fails
        cases fails
        exact ⟨index, first, rfl⟩
    · rintro ⟨index, first, rfl⟩
      rw [evaluable.value_eq_error_iff.mpr ⟨index, rfl, first⟩]
      rfl
  have truth (none : ¬ ∃ position index, form.Reaches position (.atom (.broken index)))
      (other : Form → Bool) :
      program.answer (.value place (.mention .value type)) = .ok (.flag (form.truth other)) := by
    have unbroken : form.Unbroken := fun position index reaches => none ⟨position, index, reaches⟩
    rw [answer, evaluable.value_eq_truth unbroken other]
    rfl
  refine ⟨fun _ _ => evaluable.atomic, ⟨?_, ?_⟩, message, truth⟩
  · rintro ⟨refusal, fails⟩
    obtain ⟨index, ⟨position, reaches, _⟩, _⟩ := (message refusal).mp fails
    exact ⟨position, index, reaches⟩
  · -- Without a failure there would be a value, and nothing broken would be reached.
    rintro ⟨position, index, reaches⟩
    have settles := evaluable.settles
    rw [answer]
    cases outcome : form.value with
    | error failure => exact ⟨_, rfl⟩
    | ok value =>
      rw [outcome] at settles
      exact absurd reaches (settles.1 position index)

/--
The value of every boolean expression is that of classical logic, up to the broken expressions that its
evaluation reaches, of which the leftmost decides how it fails.
-/
theorem boolean_expressions_are_classical {value : Value}
    (implements : program.answer (.implements .boolExpr type) = .ok value) :
    ∃ form, program.Gives type form ∧ ∀ place, program.Classical type form place := by
  obtain ⟨sound, form, gives, met⟩ := exists_gives_of_implements implements
  exact ⟨form, gives, gives.classical sound met⟩

/-- A conjunction reaches what is forced behind a false literal, and a disjunction skips what is broken. -/
theorem boolean_expressions_are_classical_behind_literals :
    bare.answer (.value .item (.mention .value
        (.combine .or (.bool (.literal true)) (.atom (.broken 2))))) = .ok (.flag true) ∧
      bare.answer (.value .body (.mention .value (.combine .and (.bool (.literal false))
        (.wrap .force (.atom (.broken 1)))))) = .error (.constant "Broken 1") := by
  have skipping : bare.Gives (.combine .or (.bool (.literal true)) (.atom (.broken 2)))
      (.combine .or (.bool (some true)) (.atom (.broken 2))) := ⟨_, _, opens_bare, rfl, rfl⟩
  have reaching : bare.Gives
      (.combine .and (.bool (.literal false)) (.wrap .force (.atom (.broken 1))))
      (.combine .and (.bool (some false)) (.wrap .force (.atom (.broken 1)))) :=
    ⟨_, _, opens_bare, rfl, rfl⟩
  obtain ⟨form, gives, classical⟩ := boolean_expressions_are_classical
    ((skipping.answer_implements sound_bare .boolExpr).trans rfl)
  obtain ⟨form', gives', classical'⟩ := boolean_expressions_are_classical
    ((reaching.answer_implements sound_bare .boolExpr).trans rfl)
  cases gives.unique skipping
  cases gives'.unique reaching
  constructor
  · refine (classical .item).truth ?_ fun _ => false
    rintro ⟨position, index, reaches⟩
    obtain ⟨unbroken, _⟩ := (Form.Evaluable.skip (.atom (.broken 2))).settles
    exact unbroken position index reaches
  · refine ((classical' .body).message _).mpr ⟨1, ?_, rfl⟩
    obtain ⟨index, same, first⟩ :=
      (Form.Evaluable.and (.bool false) (.force (.broken 1))).settles
    cases same
    exact first

end Program

end TypeLists
