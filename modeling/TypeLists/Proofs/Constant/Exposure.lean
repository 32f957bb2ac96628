import TypeLists.Proofs.Constant.Item
import TypeLists.Proofs.Constant.Rejection
import TypeLists.Proofs.Identity
import TypeLists.Proofs.Normalization.Formers

/-! What lazy combinators hide, and guards expose: an operand that is skipped only has to be well-formed and
sized, and a constant that guards it anywhere in its text ends as the guard alone does. -/

namespace TypeLists

/-- A form is no boolean expression for one reason at most. -/
theorem Form.unmet_boolExpr_cases (limit : Nat) (form : Form) :
    form.unmet limit .boolExpr = [] ∨ form.unmet limit .boolExpr = [.illTyped] ∨
      form.unmet limit .boolExpr = [.tooDeep] := by
  -- The depth is looked at before the trait, and one reason ends the search.
  unfold unmet shortfall
  split_ifs
  · exact .inl rfl
  · exact .inr (.inr rfl)
  · exact .inl rfl
  · exact .inr (.inl rfl)

/-- The choice between two branches, of which a boolean chooses the first. -/
def Ty.choosing (condition : Ty) (value : Bool) (chosen other : Ty) : Ty :=
  -- A true condition chooses the branch that is written first.
  bif value then .choice condition chosen other else .choice condition other chosen

/-- A choice between a delayed type and a sized one gives back what is delayed, if that is chosen. -/
theorem Form.select?_choosing (value : Bool) (inner other : Form) :
    (bif value then Form.choice (.bool (some value)) (.wrap .thunk inner) other
      else .choice (.bool (some value)) other (.wrap .thunk inner)).select? =
        if other.sized then some inner else none := by
  cases value <;> rfl

/-- So many negations of a type that is no boolean expression. -/
def Ty.negations : Nat → Ty
  | 0 => .atom .notEvaluable
  | count + 1 => .wrap .not (negations count)

/-- The constant that is true, and skips a guard of what a name stands for. -/
def Constant.skippedGuard : Constant Ty :=
  .connect .or (.literal true) (.mention .boolGuard (.named (.param .type)))

namespace Program

variable {program : Program} {hidden : Ty} {form : Form} {context : Constant Ty} {name : TypeName}

/-- Where no mention of a constant fails, none of its resolution does. -/
theorem Resolves.failures_eq_nil (sound : program.Sound) {constant : Constant Ty}
    {resolved : Constant Form} (resolves : program.Resolves constant resolved)
    (succeeds : ∀ place how type, constant.Occurs place how type → ¬ program.Fails how type) :
    Constant.failures Form.reading resolved.mentions = [] := by
  rw [List.eq_nil_iff_forall_not_mem]
  intro failure member
  rw [Constant.failures_mentions_eq, List.mem_filterMap] at member
  obtain ⟨occurrence, inside, outcome⟩ := member
  -- The failing mention of the resolution stands for one of the constant.
  obtain ⟨type, occurs, mention⟩ :=
    resolves.alike.flip.occurs (Constant.mem_occurrences_iff.mp inside)
  refine succeeds _ _ type occurs ((mention.fails_iff sound).mpr ?_)
  cases result : Form.reading.outcome occurrence.2.1 occurrence.2.2 with
  | ok value => simp [result] at outcome
  | error other => exact ⟨other, rfl⟩

/-- A constant that guards a type is refused for what the guards find in the type. -/
theorem Gives.answer_fill (sound : program.Sound) (gives : program.Gives hidden form) {fault : Fault}
    (trips : form.Trips program.limit fault) (guarded : Guarded (context.uses name))
    (used : context.uses name ≠ []) {resolved : Constant Form}
    (resolves : program.Resolves (context.fill name (.bool (.literal true))) resolved)
    (quiet : Constant.failures Form.reading resolved.mentions = [])
    (expands : program.ExpandsConstant (context.fill name hidden)) :
    program.answer (.value .item (context.fill name hidden)) =
      Fault.refuse [fault] (.flag false) := by
  obtain ⟨_, scope, opens, clean⟩ := gives_iff.mp gives
  obtain ⟨_, scope', opens', resolvesClean⟩ := resolves_iff.mp resolves
  obtain ⟨scope'', plain, opens'', plainExpands⟩ := expands
  cases opens.unique opens'
  cases opens.unique opens''
  -- The two fillings are normalized where the name stands for a true literal, and for the type.
  have good : (Ty.bool (.literal true)).normalize scope = .clean (.bool (some true)) := rfl
  rw [Constant.normalize_fill good] at resolvesClean
  have names := opens.wellFormed_names.setting name (Form.wellFormed_bool_some true)
  -- What is well-formed and quiet with the literal is tripped with the type.
  have tripped := context.tripped names (opens.limit_eq ▸ trips) guarded resolvesClean quiet
  obtain ⟨some, none, all⟩ := tripped.settle_used used
  have query : Expanding.run program.limit (Query.value .item (context.fill name hidden)).expand =
      .ok (.value .item plain) :=
    Expanding.run_map_eq_ok_iff.mpr ⟨plain, plainExpands, rfl⟩
  rw [opens.answer_eq query, Query.answer, Constant.normalize_of_run plainExpands,
    Constant.normalize_fill clean]
  exact Scope.conclude_eq_of_faults (sound.background_eq_nil opens) (by simpa using some)
    (by simpa using all) _

/-- The value of a type is named by a constant exactly if the type is a boolean expression. -/
theorem resolves_value_iff {type : Ty} {resolved : Constant Form} :
    program.Resolves (.mention .value type) resolved ↔
      ∃ form, program.Gives type form ∧ form.unmet program.limit .boolExpr = [] ∧
        resolved = .mention .value form := by
  -- The mention adds one requirement to what is required of the type.
  constructor
  · intro resolves
    obtain ⟨scope, plain, opens, expands, clean⟩ := resolves
    obtain ⟨plain', made, rfl⟩ := Expanding.run_map_eq_ok_iff.mp expands
    simp only [Constant.normalize, Mention.unmet, Checked.bind_eq_clean_iff, Checked.note_eq_clean_iff,
      Checked.pure_eq_clean_iff, opens.limit_eq] at clean
    obtain ⟨form, formClean, _, met, rfl⟩ := clean
    exact ⟨form, ⟨scope, plain', opens, made, formClean⟩, met, rfl⟩
  · intro parts
    obtain ⟨form, ⟨scope, plain, opens, expands, clean⟩, met, rfl⟩ := parts
    refine ⟨scope, .mention .value plain, opens,
      Expanding.run_map_eq_ok_iff.mpr ⟨plain, expands, rfl⟩, ?_⟩
    simp only [Constant.normalize, Mention.unmet, Checked.bind_eq_clean_iff, Checked.note_eq_clean_iff,
      Checked.pure_eq_clean_iff, opens.limit_eq]
    exact ⟨form, clean, (), met, rfl⟩

/-- A boolean is known to be sized as soon as anything can be proved at all. -/
theorem unmet_sized_bool_iff {limit : Nat} {value : Bool} :
    (Form.bool (some value)).unmet limit .sized = [] ↔ 1 ≤ limit := by
  rw [Form.unmet_eq_nil_iff rfl]
  exact and_iff_left rfl

/-- The literal of a boolean has that boolean for its normal form. -/
theorem Sound.gives_literal (sound : program.Sound) (value : Bool) :
    program.Gives (.bool (.literal value)) (.bool (some value)) := by
  obtain ⟨scope, opens, _⟩ := sound
  exact ⟨scope, _, opens, rfl, rfl⟩

/-- A disjunction behind a true literal has a value exactly if what it skips is well-formed and sized. -/
theorem answer_value_skip_iff (sound : program.Sound) {answer : Value} :
    program.answer (.value .item
        (.mention .value (.combine .or (.bool (.literal true)) hidden))) = .ok answer ↔
      2 ≤ program.limit ∧ program.answer (.implements .sized hidden) = .ok (.flag true) ∧
        answer = .flag true := by
  rw [answer_value_eq_ok_iff sound, answer_implements_eq_ok_iff sound]
  constructor
  · intro evaluated
    obtain ⟨_, result, resolves, outcome, rfl⟩ := evaluated
    obtain ⟨_, gives, met, rfl⟩ := resolves_value_iff.mp resolves
    have settled := gives.wellFormed.settled not_false
    -- The normal form of the disjunction holds that of the skipped operand, of which it demands a size.
    obtain ⟨left', form, literal, gives', _, sized, rfl⟩ := gives_combine_iff.mp gives
    cases literal.unique (sound.gives_literal true)
    obtain ⟨deep, _⟩ := (Form.unmet_eq_nil_iff settled).mp met
    rw [Constant.asItem_mention] at outcome
    -- The value of the disjunction is that of its literal.
    cases outcome
    exact ⟨deep, ⟨form, gives', sized, rfl⟩, rfl⟩
  · intro parts
    obtain ⟨deep, ⟨form, gives', sized, _⟩, rfl⟩ := parts
    have literal := sound.gives_literal true
    have sized' : (Form.bool (some true)).unmet program.limit .sized = [] :=
      unmet_sized_bool_iff.mpr (by omega)
    have gives : program.Gives (.combine .or (.bool (.literal true)) hidden)
        (.combine .or (.bool (some true)) form) :=
      gives_combine_iff.mpr ⟨_, form, literal, gives', sized', sized, rfl⟩
    -- Whether the operand is a boolean expression is never asked.
    have met : (Form.combine .or (.bool (some true)) form).unmet program.limit .boolExpr = [] :=
      (Form.unmet_eq_nil_iff (gives.wellFormed.settled not_false)).mpr ⟨deep, rfl⟩
    exact ⟨_, true, resolves_value_iff.mpr ⟨_, gives, met, rfl⟩, Constant.asItem_mention .., rfl⟩

/-- A type that is named by its value answers with the value of its normal form, if that has one. -/
theorem Gives.answer_value_mention (sound : program.Sound) (gives : program.Gives hidden form) :
    program.answer (.value .item (.mention .value hidden)) =
      if form.unmet program.limit .boolExpr = [] then Answer.ofOutcome form.value
      else Fault.refuse (form.unmet program.limit .boolExpr) (.flag false) := by
  -- A met requirement leaves it to the evaluation, and an unmet one is the answer.
  by_cases met : form.unmet program.limit .boolExpr = []
  · rw [if_pos met]
    exact (resolves_value_iff.mpr ⟨form, gives, met, rfl⟩).answer_mention sound
  · rw [if_neg met]
    obtain ⟨scope, plain, opens, expands, clean⟩ := gives
    have query : Expanding.run program.limit (Query.value .item (.mention .value hidden)).expand =
        .ok (.value .item (.mention .value plain)) :=
      Expanding.run_map_eq_ok_iff.mpr
        ⟨_, Expanding.run_map_eq_ok_iff.mpr ⟨plain, expands, rfl⟩, rfl⟩
    have quiet := sound.background_eq_nil opens
    have checked : (Constant.mention .value plain).normalize scope = ⟨.mention .value form,
        (form.unmet program.limit .boolExpr).map fun fault => ⟨.formation, fault⟩⟩ := by
      rw [Constant.normalize, clean, ← opens.limit_eq]
      exact Checked.ext rfl (List.append_nil _)
    rw [opens.answer_eq query, Query.answer, checked, Scope.conclude, quiet]
    -- The one broken rule is found while the constant is checked, and its evaluation never begins.
    rcases form.unmet_boolExpr_cases program.limit with none | broken | broken
    · exact absurd none met
    · rw [broken]
      rfl
    · rw [broken]
      rfl

/-- The parts of a choice have normal forms that are sized, whichever branch stands first. -/
theorem gives_choosing_iff {condition chosen other : Ty} {value : Bool} :
    program.Gives (.choosing condition value chosen other) form ↔
      ∃ condition' chosen' other', program.Gives condition condition' ∧
        program.Gives chosen chosen' ∧ program.Gives other other' ∧
        (condition'.unmet program.limit .sized = [] ∧ chosen'.unmet program.limit .sized = [] ∧
          other'.unmet program.limit .sized = []) ∧
        form = bif value then .choice condition' chosen' other' else .choice condition' other' chosen' := by
  cases value with
  | true => exact gives_choice_iff
  | false =>
    refine gives_choice_iff.trans (exists_congr fun condition' => ?_)
    -- The branches stand in the other order.
    rw [exists_comm]
    refine exists₂_congr fun chosen' other' => ?_
    rw [and_left_comm (a := program.Gives other other'),
      and_comm (a := other'.unmet program.limit .sized = [])]
    rfl

/-- The projection out of a choice gives what its chosen branch delays, if the other branch is sized. -/
theorem gives_select_choosing_iff {condition chosen other : Ty} {value : Bool} {inner result : Form}
    (decided : program.Gives condition (.bool (some value)))
    (delayed : program.Gives chosen (.wrap .thunk inner)) :
    program.Gives (.select (.choosing condition value chosen other)) result ↔
      2 ≤ program.limit ∧ result = inner ∧
        ∃ form, program.Gives other form ∧ form.unmet program.limit .sized = [] := by
  rw [gives_select_iff]
  refine and_congr_right fun deep => ?_
  constructor
  · intro parts
    obtain ⟨_, gives, selects⟩ := parts
    -- The parts of the choice have their own normal forms, which are the given ones.
    obtain ⟨_, _, form, decided', delayed', gives', ⟨_, _, sized⟩, rfl⟩ := gives_choosing_iff.mp gives
    cases decided'.unique decided
    cases delayed'.unique delayed
    rw [Form.select?_choosing] at selects
    split at selects
    · cases selects
      exact ⟨rfl, form, gives', sized⟩
    · cases selects
  · intro parts
    obtain ⟨rfl, form, gives, sized⟩ := parts
    -- What is left to check of the condition and the chosen branch is their size.
    have conditionSized : (Form.bool (some value)).unmet program.limit .sized = [] :=
      unmet_sized_bool_iff.mpr (by omega)
    have chosenSized : (Form.wrap .thunk result).unmet program.limit .sized = [] :=
      (Form.unmet_eq_nil_iff (delayed.wellFormed.settled not_false)).mpr
        ⟨show 1 ≤ program.limit by omega, rfl⟩
    obtain ⟨_, isSized⟩ := (Form.unmet_eq_nil_iff (gives.wellFormed.settled not_false)).mp sized
    refine ⟨_, gives_choosing_iff.mpr ⟨_, _, form, decided, delayed, gives,
      ⟨conditionSized, chosenSized, sized⟩, rfl⟩, ?_⟩
    rw [Form.select?_choosing]
    exact if_pos isSized

/-- A constant in which a name marks what guards guard, and nothing else, and which is otherwise in order. -/
structure Guarding (program : Program) (context : Constant Ty) (name : TypeName) : Prop where
  /-- Wherever the name stands, a guard stands around it. -/
  guarded : Guarded (context.uses name)
  /-- At least one guard stands somewhere in its text. -/
  used : context.uses name ≠ []
  /-- Everything else in it is well-formed. -/
  wellFormed : ∃ resolved, program.Resolves (context.fill name (.bool (.literal true))) resolved
  /-- No other mention in it fails. -/
  succeeds : ∀ place how type, (context.fill name (.bool (.literal true))).Occurs place how type →
    ¬ program.Fails how type

/-- What constants show of a type, behind a lazy combinator and behind guards. -/
structure Exposes (program : Program) (hidden : Ty) : Prop where
  /-- A disjunction behind a true literal asks of the type only that it is well-formed and sized. -/
  skips : ∀ {answer}, program.answer (.value .item
      (.mention .value (.combine .or (.bool (.literal true)) hidden))) = .ok answer ↔
    2 ≤ program.limit ∧ program.answer (.implements .sized hidden) = .ok (.flag true) ∧
      answer = .flag true
  /-- A constant that guards it breaks a rule, if it is no boolean expression. -/
  rejects : ∀ {form context name}, program.answer (.implements .sized hidden) = .ok (.flag true) →
    program.Gives hidden form → form.proofDepth .boolExpr ≤ program.limit →
    form.implements .boolExpr = false → program.Guarding context name →
    program.ExpandsConstant (context.fill name hidden) →
      program.answer (.value .item (context.fill name hidden)) = .error .illTyped
  /-- A constant that guards it is refused for depth, if the search for that is deeper than allowed. -/
  exceeds : ∀ {form context name}, program.answer (.implements .sized hidden) = .ok (.flag true) →
    program.Gives hidden form → program.limit < form.proofDepth .boolExpr →
    program.Guarding context name → program.ExpandsConstant (context.fill name hidden) →
      program.answer (.value .item (context.fill name hidden)) = .error .tooDeep
  /-- A constant that guards it fails as its value does. -/
  fails : ∀ {context name message},
    program.answer (.implements .sized hidden) = .ok (.flag true) →
    program.answer (.value .item (.mention .value hidden)) = .error (.constant message) →
    program.Guarding context name → program.ExpandsConstant (context.fill name hidden) →
      program.answer (.value .item (context.fill name hidden)) = .error (.constant message)

/-- What a choice with a delayed branch shows of its other branch. -/
structure Selects (program : Program) (condition : Ty) (value : Bool) (chosen : Ty) (inner : Form) :
    Prop where
  /-- It gives what is delayed, and asks of the other branch only that it is well-formed and sized. -/
  gives : ∀ {other result}, program.Gives (.select (.choosing condition value chosen other)) result ↔
    2 ≤ program.limit ∧ program.answer (.implements .sized other) = .ok (.flag true) ∧ result = inner
  /-- No question about it is answered otherwise. -/
  answers : ∀ {other answer},
    program.answer (.name (.select (.choosing condition value chosen other))) = .ok answer ↔
      2 ≤ program.limit ∧ program.answer (.implements .sized other) = .ok (.flag true) ∧
        answer = .text inner.name
  /-- It is the type that is delayed, whatever the other branch is. -/
  same : ∀ {other}, 2 ≤ program.limit →
    program.answer (.implements .sized other) = .ok (.flag true) →
      program.answer (.sameIdentity (.select (.choosing condition value chosen other))
        (.output chosen)) = .ok (.flag true) ∧
      ∀ {other'}, program.answer (.implements .sized other') = .ok (.flag true) →
        program.answer (.sameIdentity (.select (.choosing condition value chosen other))
          (.select (.choosing condition value chosen other'))) = .ok (.flag true)

/-- A constant that guards a sized type is refused for what the guards find in the type. -/
theorem Guarding.answer_fill (guarding : program.Guarding context name) (sound : program.Sound)
    (gives : program.Gives hidden form) {fault : Fault} (trips : form.Trips program.limit fault)
    (expands : program.ExpandsConstant (context.fill name hidden)) :
    program.answer (.value .item (context.fill name hidden)) =
      Fault.refuse [fault] (.flag false) := by
  obtain ⟨resolved, resolves⟩ := guarding.wellFormed
  exact gives.answer_fill sound trips guarding.guarded guarding.used resolves
    (resolves.failures_eq_nil sound guarding.succeeds) expands

/-- A guard of a sized type finds what keeps the type from being a boolean expression. -/
theorem Gives.trips_rule (sound : program.Sound) (gives : program.Gives hidden form)
    (sized : program.answer (.implements .sized hidden) = .ok (.flag true)) {fault : Fault}
    (unmet : form.unmet program.limit .boolExpr = [fault]) : form.Trips program.limit fault := by
  obtain ⟨other, gives', met, _⟩ := (answer_implements_eq_ok_iff sound).mp sized
  cases gives.unique gives'
  exact .rule (by rw [Form.unguardable, met, unmet, List.nil_append])

/-- Every type is exposed by guards, whatever hides it. -/
theorem exposes (sound : program.Sound) (hidden : Ty) : program.Exposes hidden where
  skips := answer_value_skip_iff sound
  rejects {form context name} sized gives deep lacks guarding expands := by
    have settled := gives.wellFormed.settled not_false
    have unmet : form.unmet program.limit .boolExpr = [.illTyped] := by
      simp [Form.unmet, settled, Nat.not_lt.mpr deep, lacks, Form.shortfall]
    exact guarding.answer_fill sound gives (gives.trips_rule sound sized unmet) expands
  exceeds {form context name} sized gives deep guarding expands := by
    have settled := gives.wellFormed.settled not_false
    have unmet : form.unmet program.limit .boolExpr = [.tooDeep] := by
      simp [Form.unmet, settled, deep]
    exact guarding.answer_fill sound gives (gives.trips_rule sound sized unmet) expands
  fails {context name message} sized failing guarding expands := by
    obtain ⟨form, gives, met, _⟩ := (answer_implements_eq_ok_iff sound).mp sized
    rw [gives.answer_value_mention sound] at failing
    split at failing
    · rename_i known
      -- The type is a boolean expression, so that its value is what the message is about.
      cases value : form.value with
      | ok result =>
        rw [value] at failing
        cases failing
      | error failure =>
        rw [value] at failing
        cases failing
        have unguardable : form.unguardable program.limit = [] := by
          rw [Form.unguardable, met, known, List.nil_append]
        exact guarding.answer_fill sound gives (.value unguardable value) expands
    · -- A broken rule is no failing constant.
      rcases form.unmet_boolExpr_cases program.limit with none | broken | broken
      · contradiction
      · rw [broken] at failing
        cases failing
      · rw [broken] at failing
        cases failing

/-- Every choice behind a known condition gives what its chosen branch delays, and no more. -/
theorem selects (sound : program.Sound) {condition chosen : Ty} {value : Bool} {inner : Form}
    (decided : program.Gives condition (.bool (some value)))
    (delayed : program.Gives chosen (.wrap .thunk inner)) :
    program.Selects condition value chosen inner := by
  have sized {other : Ty} : program.answer (.implements .sized other) = .ok (.flag true) ↔
      ∃ form, program.Gives other form ∧ form.unmet program.limit .sized = [] := by
    simp [answer_implements_eq_ok_iff sound]
  have gives {other : Ty} {result : Form} :
      program.Gives (.select (.choosing condition value chosen other)) result ↔ 2 ≤ program.limit ∧
        program.answer (.implements .sized other) = .ok (.flag true) ∧ result = inner := by
    rw [gives_select_choosing_iff decided delayed, sized, and_comm (a := result = inner)]
  constructor
  · exact gives
  · intro other answer
    rw [answer_name_eq_ok_iff]
    constructor
    · intro named
      obtain ⟨_, form, selected, rfl⟩ := named
      obtain ⟨deep, placed, rfl⟩ := gives.mp selected
      exact ⟨deep, placed, rfl⟩
    · intro parts
      obtain ⟨deep, placed, rfl⟩ := parts
      exact ⟨sound, inner, gives.mpr ⟨deep, placed, rfl⟩, rfl⟩
  · -- All of these types have the one normal form, that of what is delayed.
    intro other deep placed
    have selected := gives.mpr ⟨deep, placed, rfl⟩
    constructor
    · rw [selected.answer_sameIdentity sound (delayed.output (by omega)), decide_eq_true rfl]
    · intro other' placed'
      rw [selected.answer_sameIdentity sound (gives.mpr ⟨deep, placed', rfl⟩), decide_eq_true rfl]

/--
What a lazy combinator hides is exposed by a guard: a skipped type has to be well-formed and sized, and no
more, while every constant that guards it breaks the rule that it breaks, or fails as it fails; and a choice
asks no more of the branch that it leaves out.
-/
theorem guards_expose_hidden (sound : program.Sound) :
    (∀ hidden, program.Exposes hidden) ∧
      ∀ {condition chosen value inner}, program.Gives condition (.bool (some value)) →
        program.Gives chosen (.wrap .thunk inner) → program.Selects condition value chosen inner :=
  ⟨exposes sound, selects sound⟩

/-- Apart from what its name stands for, nothing is wrong with a constant that skips a guard. -/
theorem guarding_skippedGuard (sound : program.Sound) (deep : 2 ≤ program.limit) :
    program.Guarding .skippedGuard (.param .type) := by
  -- The guard evaluates a true literal, where the name stands for that.
  have mention : program.Resolves (.mention .boolGuard (.bool (.literal true)))
      (.mention .boolGuard (.bool (some true))) := by
    obtain ⟨scope, opens, _⟩ := sound
    have sized : (Form.bool (some true)).unmet program.limit .sized = [] :=
      unmet_sized_bool_iff.mpr (by omega)
    have known : (Form.bool (some true)).unmet program.limit .boolExpr = [] :=
      (Form.unmet_eq_nil_iff rfl).mpr ⟨deep, rfl⟩
    refine ⟨scope, _, opens, rfl, ?_⟩
    have clean : (Ty.bool (.literal true)).normalize scope = .clean (.bool (some true)) := rfl
    simp only [Constant.normalize, Checked.bind_eq_clean_iff, Checked.note_eq_clean_iff,
      Checked.pure_eq_clean_iff, opens.limit_eq]
    exact ⟨_, clean, (), List.append_eq_nil_iff.mpr ⟨sized, known⟩, rfl⟩
  refine ⟨by simp [Constant.skippedGuard, Constant.uses, Ty.isName, Guarded],
    by simp [Constant.skippedGuard, Constant.uses, Ty.isName], ?_, ?_⟩
  · obtain ⟨scope, opens, _⟩ := id sound
    exact ⟨_, resolves_connect_iff.mpr
      ⟨_, _, resolves_literal_iff.mpr ⟨⟨scope, opens⟩, rfl⟩, mention, rfl⟩⟩
  · intro place how type occurs fails
    have only := Constant.mem_occurrences_iff.mpr occurs
    simp [Constant.skippedGuard, Constant.fill, Constant.substitute, Ty.substitute, TypeName.replaced,
      Constant.occurrences, Constant.placed] at only
    obtain ⟨_, rfl, rfl⟩ := only
    obtain ⟨failure, outcome⟩ := (mention.fails_iff sound).mp fails
    cases outcome

/-- A broken expression is skipped behind a true literal, and fails a constant that guards it out of reach. -/
theorem guards_expose_broken :
    bare.answer (.value .item (.mention .value
        (.combine .or (.bool (.literal true)) (.atom (.broken 1))))) = .ok (.flag true) ∧
      bare.answer (.value .item (.connect .or (.literal true)
        (.mention .boolGuard (.atom (.broken 1))))) = .error (.constant "Broken 1") := by
  -- A broken expression is well-formed and sized, and its value is what is broken about it.
  have exposed := (guards_expose_hidden sound_bare).1 (.atom (.broken 1))
  have guarding := guarding_skippedGuard sound_bare (by decide)
  refine ⟨exposed.skips.mpr ⟨by decide, rfl, rfl⟩, ?_⟩
  exact exposed.fails rfl rfl guarding ⟨_, _, opens_bare, rfl⟩

/-- What is no boolean expression does not always break a rule: the search for one may be too deep before. -/
theorem guards_expose_not_always_illTyped :
    ¬ ∀ (program : Program) (hidden : Ty) (form : Form) (context : Constant Ty) (name : TypeName),
      program.Sound → program.answer (.implements .sized hidden) = .ok (.flag true) →
      program.Gives hidden form → form.implements .boolExpr = false →
      program.Guarding context name → program.ExpandsConstant (context.fill name hidden) →
        program.answer (.value .item (context.fill name hidden)) = .error .illTyped := by
  intro broken
  -- Nine negations need a proof that is ten levels deep.
  have opens : (⟨8, [], []⟩ : Program).Opens (Scope.ofAliases 8 []) := ⟨[], rfl, rfl⟩
  have sound : (⟨8, [], []⟩ : Program).Sound := ⟨_, opens, rfl⟩
  have refused := broken ⟨8, [], []⟩ (.negations 9) _ .skippedGuard (.param .type) sound rfl
    ⟨_, _, opens, rfl, rfl⟩ rfl (guarding_skippedGuard sound (by decide)) ⟨_, _, opens, rfl⟩
  revert refused
  decide

end Program

end TypeLists
