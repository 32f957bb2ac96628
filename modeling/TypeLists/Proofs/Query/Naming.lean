import TypeLists.Proofs.Aliases.Obligations
import TypeLists.Proofs.Form.Guarded
import TypeLists.Proofs.Literal.Meaning
import TypeLists.Proofs.Query.Operands
import TypeLists.Proofs.Query.Truth

/-! Naming a type: the guards of a type show whether the type can be named, and are refused for the same reason
where it cannot. The guard of a boolean expression can always be named, and only its value asks for more. -/

namespace TypeLists

/-- The mention is a guard of a type. -/
def Mention.GuardsType (how : Mention) : Prop :=
  how = .typeGuard ∨ how = .eagerType

/-- The mention is a guard of a boolean expression. -/
def Mention.GuardsBool (how : Mention) : Prop :=
  how = .boolGuard ∨ how = .eagerBool

namespace Query

/-- Without literals, a type is named if nothing is wrong with it and with the aliases. -/
theorem answer_name (scope : Scope) (type : Ty) : (Query.name type).answer scope =
    Fault.refuse (scope.background ++ (type.normalize scope).faults)
      (.text (type.normalize scope).value.name) := by
  simp only [Query.answer, Scope.conclude, Checked.faults, Checked.findings_bind, Checked.findings_pure,
    List.append_nil]
  rfl

/-- Constants that show the same have the same value, in a constant item and in a function body. -/
theorem answer_value_congr {scope scope' : Scope} (background : scope.background = scope'.background)
    {constant constant' : Constant Ty}
    (alike : Checked.Alike Constant.Matches (constant.normalize scope) (constant'.normalize scope'))
    (place : Place) :
    (Query.value place constant).answer scope = (Query.value place constant').answer scope' := by
  cases place with
  | item => simp only [answer, Scope.conclude, Constant.settle_congr alike, background]
  | body =>
    -- The body is concluded first, and its evaluation sees what the constant shows.
    have ends : (constant.normalize scope).value.asBody Form.reading =
        (constant'.normalize scope').value.asBody Form.reading := by
      rw [← Constant.asBody_observed, alike.value, Constant.asBody_observed]
    simp only [answer, Scope.conclude, background, alike.faults]
    refine (Fault.refuse_bind ..).trans (Eq.trans ?_ (Fault.refuse_bind ..).symm)
    rw [ends]

end Query

section TypeGuard

/-- In a guard of a type nothing more is found than in the type itself. -/
theorem Constant.normalize_typeGuard (scope : Scope) {how : Mention} (guard : how.GuardsType) (type : Ty) :
    (Constant.mention how type).normalize scope =
      ⟨.mention how (type.normalize scope).value, (type.normalize scope).findings⟩ := by
  rcases guard with rfl | rfl <;>
    exact Checked.ext rfl (by simp [Constant.normalize, Mention.unmet, Checked.note])

/-- Without literals, a guard of a type answers as naming the type does, with true in place of the name. -/
theorem Query.answer_typeGuard (scope : Scope) (place : Place) {how : Mention} (guard : how.GuardsType)
    (type : Ty) : (Query.value place (.mention how type)).answer scope =
      ((Query.name type).answer scope).map fun _ => .flag true := by
  have outcome (form : Form) : Form.reading.outcome how form = .ok true := by
    rcases guard with rfl | rfl <;> rfl
  have checked := Constant.normalize_typeGuard scope guard type
  have body : (Query.value .body (.mention how type)).answer scope =
      ((Query.name type).answer scope).map fun _ => .flag true := by
    have ran : (Constant.mention how (type.normalize scope).value).asBody Form.reading = .ok true := by
      rw [Constant.asBody_mention, outcome]
      rfl
    rw [answer_name, Query.answer, Scope.conclude, checked, Fault.refuse, Fault.refuse]
    simp only [Checked.faults]
    cases Refusal.ofFaults? _ with
    | some refusal => rfl
    | none =>
      show (do return Value.flag (← Refusal.ofBody (Constant.asBody _ _)) : Answer) = _
      rw [ran]
      rfl
  cases place with
  | body => exact body
  | item =>
    by_cases quiet : (type.normalize scope).faults = []
    · -- Without faults there is a value at the item as well, which is true.
      have clean : (Constant.mention how type).normalize scope =
          .clean (.mention how (type.normalize scope).value) := by
        rw [checked, Finding.reported_eq_nil_iff.mp quiet]
        rfl
      have value : Constant.settle ((Constant.mention how type).normalize scope) = .clean (some true) := by
        rw [clean, Constant.settle_clean, Constant.asItem_mention, outcome]
      rw [answer_name, quiet, Query.answer, value]
      show Fault.refuse (scope.background ++ []) _ = _
      rw [Fault.refuse, Fault.refuse]
      cases Refusal.ofFaults? _ <;> rfl
    · rw [Query.answer_value_of_faults, body]
      rwa [checked]

end TypeGuard

/-- The fault that a refusal stands for by itself, if there is one. -/
def Refusal.fault? : Refusal → Option Fault
  | illTyped => some .illTyped
  | cyclic => some .cyclic
  | unsignedMinus => some .unsignedMinus
  | tooDeep => some .tooDeep
  | _ => none

/-- What some faults amount to is one of them. -/
theorem Refusal.mem_of_ofFaults? {faults : List Fault} {refusal : Refusal} {fault : Fault}
    (refused : ofFaults? faults = some refusal) (stands : refusal.fault? = some fault) : fault ∈ faults := by
  -- Every branch is taken because of the fault that its refusal stands for, if it stands for one.
  unfold ofFaults? at refused
  split at refused
  · cases refused; cases stands
  split at refused
  · cases refused; cases stands; assumption
  split at refused
  · cases refused; cases stands
  split at refused
  · cases refused; cases stands; assumption
  split at refused
  · cases refused; cases stands; assumption
  split at refused
  · split at refused
    · cases refused; cases stands; assumption
    · cases refused
  · cases refused; cases stands

/-- Some ordinary faults amount to a refusal of five kinds. -/
theorem Refusal.ofFaults?_cases {faults : List Fault} (ordinary : ∀ fault ∈ faults, fault.Ordinary)
    {refusal : Refusal} (refused : ofFaults? faults = some refusal) :
    refusal = .illTyped ∨ refusal = .tooDeep ∨ (∃ report, refusal = .constant report) ∨
      refusal = .unsignedMinus ∨ refusal = .cyclic := by
  have matched : .mismatched ∉ faults := fun member => (ordinary _ member).1 rfl
  have alive : .outlives ∉ faults := fun member => (ordinary _ member).2 rfl
  simp only [ofFaults?, if_neg matched, if_neg alive] at refused
  split at refused
  · exact .inl (Option.some.inj refused).symm
  split at refused
  · exact .inr (.inr (.inr (.inr (Option.some.inj refused).symm)))
  split at refused
  · exact .inr (.inr (.inr (.inl (Option.some.inj refused).symm)))
  split at refused
  · split at refused
    · exact .inr (.inl (Option.some.inj refused).symm)
    · cases refused
  · exact .inr (.inr (.inl ⟨_, (Option.some.inj refused).symm⟩))

/-- A broken rule weighs more than all other ordinary faults. -/
theorem Refusal.ofFaults?_of_illTyped {faults : List Fault} (ordinary : ∀ fault ∈ faults, fault.Ordinary)
    (broken : .illTyped ∈ faults) : ofFaults? faults = some .illTyped := by
  have matched : .mismatched ∉ faults := fun member => (ordinary _ member).1 rfl
  rw [ofFaults?, if_neg matched, if_pos broken]

namespace Form

variable {limit : Nat} {form : Form}

/-- Boolean expressions are sized, and nothing has to be searched for that. -/
theorem Evaluable.sized (evaluable : form.Evaluable) : form.sized ∧ form.sizedDepth = 1 := by
  cases evaluable <;> exact ⟨rfl, rfl⟩

/-- What makes a boolean expression lies below the question. -/
theorem Evaluable.two_le_formulaDepth (evaluable : form.Evaluable) : 2 ≤ form.formulaDepth := by
  cases evaluable with
  | broken _ | bool _ | skip _ => exact le_rfl
  | orElse _ => exact Nat.succ_le_succ (formulaDepth_pos _)
  | and _ _ => exact Nat.succ_le_succ (le_max_of_le_left (formulaDepth_pos _))
  | shorter first _ =>
    rw [formulaDepth, first.listDepth_eq]
    omega
  | not _ | force _ => exact Nat.succ_le_succ (formulaDepth_pos _)

/-- A boolean expression within the limit is accepted by guards. -/
theorem WellFormed.guardable (wellFormed : form.WellFormed (fun _ => False) limit)
    (met : form.unmet limit .boolExpr = []) : form.Evaluable ∧ form.Guardable limit := by
  have settled := wellFormed.settled not_false
  obtain ⟨deep, implements⟩ := (unmet_eq_nil_iff settled).mp met
  have evaluable := (implements_boolExpr_iff wellFormed.1).mp implements
  obtain ⟨sized, depth⟩ := evaluable.sized
  refine ⟨evaluable, List.eq_nil_iff_forall_not_mem.mpr wellFormed.1, ?_⟩
  rw [unguardable, met, List.append_nil, unmet_eq_nil_iff settled]
  exact ⟨depth.trans_le ((formulaDepth_pos form).trans_le deep), sized⟩

end Form

namespace Program

variable {program : Program} {type : Ty} {form : Form}

/-- The type can be named. -/
def Names (program : Program) (type : Ty) : Prop :=
  ∃ text, program.answer (.name type) = .ok (.text text)

/-- A type can be named exactly if the program is in order and the type has a normal form. -/
theorem names_iff : program.Names type ↔ program.Sound ∧ ∃ form, program.Gives type form := by
  simp only [Names, answer_name_eq_ok_iff]
  constructor
  · rintro ⟨_, sound, form, gives, _⟩
    exact ⟨sound, form, gives⟩
  · rintro ⟨sound, form, gives⟩
    exact ⟨_, sound, form, gives, rfl⟩

/-- A query is answered as it is written, if its literals and those of the aliases expand. -/
theorem answer_of_fits {query : Query} (fits : program.AliasesFit ∧ query.Fits program.limit) :
    program.answer query = query.answer program.scope := by
  rw [answer_eq, expands_iff.mpr fits]

theorem answer_name_of_expands (expands : program.Expands type) :
    program.answer (.name type) = (Query.name type).answer program.scope :=
  answer_of_fits (expands_type_iff.mp expands)

theorem answer_value_of_expands {constant : Constant Ty} (expands : program.ExpandsConstant constant)
    (place : Place) :
    program.answer (.value place constant) = (Query.value place constant).answer program.scope :=
  answer_of_fits (expandsConstant_iff.mp expands)

/-- What a guard of a type shows of naming the type. -/
structure ShowsNaming (program : Program) (place : Place) (how : Mention) (type : Ty) : Prop where
  /-- The guard has a value exactly if the type can be named, and the value is true. -/
  value_iff : ∀ value, program.answer (.value place (.mention how type)) = .ok value ↔
    program.Names type ∧ value = .flag true
  /-- Otherwise the guard is refused as the type is. -/
  refused_iff : ∀ refusal, program.answer (.value place (.mention how type)) = .error refusal ↔
    program.answer (.name type) = .error refusal
  /-- A type can be named exactly if it is well-formed within the limit, and its constants evaluate. -/
  names_iff : program.Sound → (program.Defines fun name => type.uses name) →
    (program.Names type ↔
      ∀ obligation, program.Owes type obligation → obligation.faults program.scope = [])
  /-- A type is refused for a rule, the depth of a proof, a constant, a minus sign or a circle of names. -/
  kinds : ∀ refusal, program.answer (.name type) = .error refusal →
    refusal = .illTyped ∨ refusal = .tooDeep ∨ (∃ report, refusal = .constant report) ∨
      refusal = .unsignedMinus ∨ refusal = .cyclic
  /-- The last two need such a minus sign in a constant, or a name that stands for nothing. -/
  kinds_of_defined : program.Sound → (program.Defines fun name => type.uses name) →
    program.answer (.name type) ≠ .error .cyclic ∧
      (program.answer (.name type) = .error .unsignedMinus → ∃ kind left right,
        program.Owes type (.unsigned kind left right) ∧
          (Obligation.unsigned kind left right).faults program.scope ≠ [])

/-- What is wrong with a type that expands, or with the aliases, is ordinary. -/
theorem ordinary_of_mem_faults {fault : Fault}
    (member : fault ∈ program.scope.background ++ (type.normalize program.scope).faults) : fault.Ordinary := by
  rcases List.mem_append.mp member with background | own
  · exact ordinary_of_mem_background background
  · exact ordinary_of_finds (Checked.finds_of_mem_faults own)

/-- A type that expands is refused for a reason of five kinds. -/
theorem Expands.refused (expands : program.Expands type) {refusal : Refusal}
    (refused : program.answer (.name type) = .error refusal) :
    refusal = .illTyped ∨ refusal = .tooDeep ∨ (∃ report, refusal = .constant report) ∨
      refusal = .unsignedMinus ∨ refusal = .cyclic := by
  rw [answer_name_of_expands expands, Query.answer_name] at refused
  exact Refusal.ofFaults?_cases (fun _ => ordinary_of_mem_faults) (Fault.refuse_eq_error_iff.mp refused)

/-- What a type is refused for is a fault of the aliases, or is found in the type. -/
theorem Expands.finds_of_refused (expands : program.Expands type) {refusal : Refusal} {fault : Fault}
    (refused : program.answer (.name type) = .error refusal) (stands : refusal.fault? = some fault) :
    fault ∈ program.scope.background ∨ (type.normalize program.scope).Finds fault := by
  rw [answer_name_of_expands expands, Query.answer_name] at refused
  have member := Refusal.mem_of_ofFaults? (Fault.refuse_eq_error_iff.mp refused) stands
  exact (List.mem_append.mp member).imp_right Checked.finds_of_mem_faults

/-- Guards of types show whether the types can be named. -/
theorem showsNaming {how : Mention} (guard : how.GuardsType) (expands : program.Expands type)
    (expands' : program.ExpandsConstant (.mention how type)) (place : Place) :
    program.ShowsNaming place how type := by
  have answer : program.answer (.value place (.mention how type)) =
      (program.answer (.name type)).map fun _ => .flag true := by
    rw [answer_value_of_expands expands', answer_name_of_expands expands, Query.answer_typeGuard _ _ guard]
  constructor
  case value_iff =>
    intro value
    rw [answer]
    cases named : program.answer (.name type) with
    | error refusal =>
      have unnamed : ¬ program.Names type := fun ⟨_, named'⟩ => by simp [named] at named'
      simp [Except.map, unnamed]
    | ok name =>
      obtain ⟨sound, form, gives, _⟩ := answer_name_eq_ok_iff.mp named
      have names : program.Names type := names_iff.mpr ⟨sound, form, gives⟩
      simp [Except.map, names, eq_comm]
  case refused_iff =>
    intro refusal
    rw [answer]
    cases program.answer (.name type) <;> simp [Except.map]
  case names_iff =>
    intro sound defined
    rw [Program.names_iff, sound.exists_gives_iff defined, and_iff_right sound,
      and_iff_right (expands_type_iff.mp expands).2]
  case kinds => exact fun _ => expands.refused
  case kinds_of_defined =>
    intro sound defined
    -- In a program in order, either kind is a fault of something that the type owes.
    have owed {refusal : Refusal} {fault : Fault} (refused : program.answer (.name type) = .error refusal)
        (stands : refusal.fault? = some fault) :
        ∃ obligation, program.Owes type obligation ∧ fault ∈ obligation.faults program.scope := by
      have found := expands.finds_of_refused refused stands
      rw [sound.background_scope] at found
      rcases sound.acyclic.owes_of_finds (found.resolve_left List.not_mem_nil) with owes | ⟨_, undefined⟩
      · exact owes
      · exact absurd defined undefined
    constructor
    · intro refused
      obtain ⟨obligation, _, wrong⟩ := owed refused rfl
      rcases Obligation.fault_cases wrong with same | ⟨same, _⟩ | ⟨_, same⟩ | ⟨same, _⟩ <;> cases same
    · intro refused
      obtain ⟨obligation, owes, wrong⟩ := owed refused rfl
      rcases Obligation.fault_cases wrong with same | ⟨same, _⟩ | ⟨_, same⟩ | ⟨_, kind, left, right, rfl⟩
      · cases same
      · cases same
      · cases same
      · exact ⟨kind, left, right, owes, List.ne_nil_of_mem wrong⟩

section BoolGuard

/-- The guard of a type as a boolean expression. -/
abbrev guardOf (type : Ty) : Ty := .wrap .boolGuard type

/-- The guard of a true literal, with which nothing is wrong. -/
abbrev trueGuard : Ty := guardOf (.bool (.literal true))

/--
What the guard of a boolean expression asks for where it is named, which is never the value of the expression.
-/
structure GuardsQuietly (program : Program) (type : Ty) : Prop where
  /-- The guard can be named, and so can a guard of that type. -/
  named : program.Names (guardOf type) ∧ program.Names (.wrap .typeGuard (guardOf type))
  /-- Guards of types are true of it. -/
  underGuard : ∀ {place how}, how.GuardsType → program.ExpandsConstant (.mention how (guardOf type)) →
    program.answer (.value place (.mention how (guardOf type))) = .ok (.flag true)
  /-- A literal with the guard as an element can be named if all its other elements can. -/
  inLiteral : ∀ {tokens types}, Literal.Writes tokens types → program.Expands (.list tokens) →
    (∀ other ∈ types, other = guardOf type ∨ program.Names other) → program.Names (.list tokens)
  /-- The guard can stand in front of every type list. -/
  inFront : ∀ {tail}, program.answer (.implements (.list .types) tail) = .ok (.flag true) →
    program.Names (.cons (guardOf type) tail)
  /-- A disjunction that skips the guard can be named, and is true. -/
  skipped : program.Names (.combine .or (.bool (.literal true)) (guardOf type)) ∧
    ∀ place, program.answer (.value place (.mention .value
      (.combine .or (.bool (.literal true)) (guardOf type)))) = .ok (.flag true)
  /-- Wherever it stands in another type, that one is refused as if the guard were one of a true literal. -/
  inType : ∀ {context : Ty} {name refusal}, program.Expands (context.fill name (guardOf type)) →
    (program.answer (.name (context.fill name (guardOf type))) = .error refusal ↔
      program.answer (.name (context.fill name trueGuard)) = .error refusal)
  /-- Wherever it stands in a constant, the value is the same as with a guard of a true literal. -/
  inConstant : ∀ {context : Constant Ty} {name place},
    program.ExpandsConstant (context.fill name (guardOf type)) →
    program.answer (.value place (context.fill name (guardOf type))) =
      program.answer (.value place (context.fill name trueGuard))
  /-- The value of the guard is asked of the expression, and fails as it does. -/
  evaluates : ∀ {place how}, how.GuardsBool → program.ExpandsConstant (.mention how type) →
    program.answer (.value place (.mention how type)) =
      (program.answer (.value place (.mention .value type))).map fun _ => .flag true

/-- Where a type stands in a text, the text with the guard of a true literal in its place expands as well. -/
theorem fitIn_trueGuard {limit : Nat} {name : TypeName} {names : List (TypeName × Nat)}
    (fits : FitIn limit (name.replaced type) names) : FitIn limit (name.replaced trueGuard) names := by
  intro hole member
  by_cases marked : hole.1 = name
  · rw [TypeName.replaced, if_pos marked]
    exact ⟨by simp, by simp [Ty.demands, Constant.demands]⟩
  · have kept := fits hole member
    rw [TypeName.replaced, if_neg marked] at kept ⊢
    exact kept

theorem Expands.fill_trueGuard {context : Ty} {name : TypeName}
    (expands : program.Expands (context.fill name type)) :
    program.Expands (context.fill name trueGuard) := by
  obtain ⟨fit, fits⟩ := expands_type_iff.mp expands
  obtain ⟨around, inside⟩ := (Ty.fits_substitute_iff context 0).mp fits
  exact expands_type_iff.mpr ⟨fit, (Ty.fits_substitute_iff context 0).mpr ⟨around, fitIn_trueGuard inside⟩⟩

theorem ExpandsConstant.fill_trueGuard {context : Constant Ty} {name : TypeName}
    (expands : program.ExpandsConstant (context.fill name type)) :
    program.ExpandsConstant (context.fill name trueGuard) := by
  obtain ⟨fit, fits⟩ := expandsConstant_iff.mp expands
  obtain ⟨around, inside⟩ := (Constant.fits_substitute_iff context 0).mp fits
  exact expandsConstant_iff.mpr
    ⟨fit, (Constant.fits_substitute_iff context 0).mpr ⟨around, fitIn_trueGuard inside⟩⟩

/-- The guard of a boolean expression can be named, whatever the value of the expression. -/
theorem Gives.guardOf (gives : program.Gives type form) (guardable : form.Guardable program.limit) :
    program.Gives (guardOf type) (.wrap .boolGuard form) := by
  obtain ⟨fit, fits, clean⟩ := gives_scope_iff.mp gives
  refine gives_scope_iff.mpr ⟨fit, Ty.fits_wrap_iff.mpr fits, ?_⟩
  rw [Ty.normalize, Checked.bind_eq_clean_iff]
  exact ⟨form, clean, Form.wrapped_eq_clean_iff.mpr ⟨by rintro ⟨⟩, guardable.met, rfl⟩⟩

/-- Every type that can be named can be put under the guard of a type. -/
theorem Gives.typeGuard (gives : program.Gives type form) :
    program.Gives (.wrap .typeGuard type) (.wrap .typeGuard form) := by
  obtain ⟨fit, fits, clean⟩ := gives_scope_iff.mp gives
  refine gives_scope_iff.mpr ⟨fit, Ty.fits_wrap_iff.mpr fits, ?_⟩
  rw [Ty.normalize, Checked.bind_eq_clean_iff]
  exact ⟨form, clean, Form.wrapped_eq_clean_iff.mpr ⟨by rintro ⟨⟩, rfl, rfl⟩⟩

/-- A type that can be named can be put in front of a type list. -/
theorem Gives.cons {tail : Ty} {rest : Form} (gives : program.Gives type form)
    (gives' : program.Gives tail rest) (met : rest.unmet program.limit (.list .types) = []) :
    program.Gives (.cons type tail) (.cons form rest) := by
  obtain ⟨fit, fits, clean⟩ := gives_scope_iff.mp gives
  obtain ⟨_, fits', clean'⟩ := gives_scope_iff.mp gives'
  refine gives_scope_iff.mpr ⟨fit, Ty.fits_cons_iff.mpr ⟨fits, fits'⟩, ?_⟩
  rw [Ty.normalize, Checked.bind_eq_clean_iff]
  refine ⟨form, clean, ?_⟩
  rw [Checked.bind_eq_clean_iff]
  exact ⟨rest, clean', Form.formed_eq_clean_iff.mpr ⟨met, rfl⟩⟩

/-- The guard of a boolean expression and that of a true literal differ in what they guard alone. -/
theorem Gives.guards_alike (gives : program.Gives type form) (evaluable : form.Evaluable)
    (guardable : form.Guardable program.limit) :
    Checked.Alike (Form.SameButGuarded program.limit) ((Program.guardOf type).normalize program.scope)
      (trueGuard.normalize program.scope) := by
  -- There is room for the literal where there is room for another boolean expression.
  have deep : 2 ≤ program.limit := by
    have met := (List.append_eq_nil_iff.mp guardable.met).2
    have settled : form.settled := by simp [Form.settled, guardable.holes]
    exact evaluable.two_le_formulaDepth.trans ((Form.unmet_eq_nil_iff settled).mp met).1
  have literal : (Form.bool (some true)).Guardable program.limit :=
    ((Form.wellFormed_bool_some true).guardable ((Form.unmet_eq_nil_iff rfl).mpr ⟨deep, rfl⟩)).2
  have clean := (gives_scope_iff.mp (gives.guardOf guardable)).2.2
  have clean' : trueGuard.normalize program.scope = .clean (.wrap .boolGuard (.bool (some true))) := by
    rw [Ty.normalize, Checked.bind_eq_clean_iff]
    exact ⟨_, rfl, Form.wrapped_eq_clean_iff.mpr ⟨by rintro ⟨⟩, literal.met, rfl⟩⟩
  rw [clean, clean']
  exact ⟨.guard guardable literal, rfl⟩

/-- Whatever names stand for, the rules of types do not tell apart what guards accept. -/
theorem respects_guards (program : Program) (given given' : TypeName → Ty) :
    (program.scope.giving given).Respects (Form.SameButGuarded program.limit)
      (program.scope.giving given') :=
  @Scope.respects_sameButGuarded (program.scope.giving given) (program.scope.giving given') rfl rfl

/-- No name tells the two guards apart in a text. -/
theorem Gives.agreesOn_guards (gives : program.Gives type form) (evaluable : form.Evaluable)
    (guardable : form.Guardable program.limit) (name : TypeName)
    (uses : TypeName → List (Option Mention)) :
    (program.scope.giving (name.replaced (Program.guardOf type))).AgreesOn
      (Form.SameButGuarded program.limit) (program.scope.giving (name.replaced trueGuard)) uses := by
  intro hole use _
  refine (program.respects_guards _ _).agrees ?_ use
  show Checked.Alike _ ((name.replaced _ hole).normalize program.scope)
    ((name.replaced _ hole).normalize program.scope)
  by_cases marked : hole = name
  · simp only [TypeName.replaced, if_pos marked]
    exact gives.guards_alike evaluable guardable
  · simp only [TypeName.replaced, if_neg marked]
    exact ⟨Form.sameButGuarded_refl _, rfl⟩

/-- A guard of a boolean expression in a type plays no part in whether the type can be named. -/
theorem Gives.answer_name_guards (gives : program.Gives type form) (evaluable : form.Evaluable)
    (guardable : form.Guardable program.limit) {context : Ty} {name : TypeName}
    (expands : program.Expands (context.fill name (Program.guardOf type))) (refusal : Refusal) :
    program.answer (.name (context.fill name (Program.guardOf type))) = .error refusal ↔
      program.answer (.name (context.fill name trueGuard)) = .error refusal := by
  have alike : Checked.Alike (Form.SameButGuarded program.limit)
      ((context.fill name (Program.guardOf type)).normalize program.scope)
      ((context.fill name trueGuard).normalize program.scope) := by
    rw [Ty.fill, Ty.fill, Ty.normalize_substitute, Ty.normalize_substitute]
    exact context.normalize_alike (program.respects_guards _ _)
      (gives.agreesOn_guards evaluable guardable name _)
  rw [answer_name_of_expands expands, answer_name_of_expands expands.fill_trueGuard, Query.answer_name,
    Query.answer_name, Fault.refuse_eq_error_iff, Fault.refuse_eq_error_iff, alike.faults]

/-- A guard of a boolean expression in a constant plays no part in the value of the constant. -/
theorem Gives.answer_value_guards (gives : program.Gives type form) (evaluable : form.Evaluable)
    (guardable : form.Guardable program.limit) {context : Constant Ty} {name : TypeName}
    (expands : program.ExpandsConstant (context.fill name (Program.guardOf type))) (place : Place) :
    program.answer (.value place (context.fill name (Program.guardOf type))) =
      program.answer (.value place (context.fill name trueGuard)) := by
  rw [answer_value_of_expands expands, answer_value_of_expands expands.fill_trueGuard]
  refine Query.answer_value_congr rfl ?_ place
  rw [Constant.fill, Constant.fill, Constant.normalize_substitute, Constant.normalize_substitute]
  exact context.normalize_alike (program.respects_guards _ _)
    (gives.agreesOn_guards evaluable guardable name _)

/-- The value of a guard of a boolean expression is that of the expression, with true in place of the result. -/
theorem Gives.answer_boolGuard (sound : program.Sound) (gives : program.Gives type form)
    (guardable : form.Guardable program.limit) {how : Mention} (guard : how.GuardsBool)
    (expands : program.ExpandsConstant (.mention how type)) (place : Place) :
    program.answer (.value place (.mention how type)) =
      (program.answer (.value place (.mention .value type))).map fun _ => .flag true := by
  have outcome : Form.reading.outcome how form = form.value.map fun _ => true := by
    rcases guard with rfl | rfl <;> rfl
  have met := guardable.met
  have resolves : program.Resolves (.mention how type) (.mention how form) := by
    obtain ⟨_, scope, opens, clean⟩ := gives_iff.mp gives
    refine resolves_iff.mpr ⟨expands, scope, opens, ?_⟩
    have accepts : how.unmet scope.limit form = [] := by
      rw [opens.limit_eq]
      rcases guard with rfl | rfl <;> exact met
    simp [Constant.normalize, clean, accepts]
  rw [gives.answer_value sound (List.append_eq_nil_iff.mp met).2]
  cases place with
  | item =>
    rw [resolves.answer_mention sound, outcome]
    cases form.value <;> rfl
  | body =>
    rw [resolves.answer_body sound, Constant.asBody_mention, outcome]
    cases form.value <;> rfl

/-- Guards of boolean expressions can be named wherever they stand, and only their value asks for more. -/
theorem guardsQuietly {value : Value} (implements : program.answer (.implements .boolExpr type) = .ok value) :
    program.GuardsQuietly type := by
  obtain ⟨sound, form, gives, met⟩ := exists_gives_of_implements implements
  obtain ⟨evaluable, guardable⟩ := gives.wellFormed.guardable met
  have guarded := gives.guardOf guardable
  have deep : 2 ≤ program.limit := evaluable.two_le_formulaDepth.trans
    ((Form.unmet_eq_nil_iff (gives.wellFormed.settled not_false)).mp met).1
  have skipping : program.Gives (.combine .or (.bool (.literal true)) (Program.guardOf type))
      (.combine .or (.bool (some true)) (.wrap .boolGuard form)) := by
    refine gives_combine_iff.mpr ⟨_, _, sound.gives_literal true, guarded,
      unmet_sized_bool_iff.mpr (Nat.one_le_of_lt deep), ?_, rfl⟩
    exact (Form.unmet_eq_nil_iff (guarded.wellFormed.settled not_false)).mpr ⟨Nat.one_le_of_lt deep, rfl⟩
  constructor
  case named =>
    exact ⟨names_iff.mpr ⟨sound, _, guarded⟩, names_iff.mpr ⟨sound, _, guarded.typeGuard⟩⟩
  case underGuard =>
    intro place how guard expands
    exact ((showsNaming guard (gives_iff.mp guarded).1 expands place).value_iff _).mpr
      ⟨names_iff.mpr ⟨sound, _, guarded⟩, rfl⟩
  case inLiteral =>
    intro tokens types writes expands others
    refine names_iff.mpr ⟨sound, (Literal.denotes_list.exists_gives_iff writes expands).mpr ?_⟩
    intro other member
    rcases others other member with rfl | named
    · exact ⟨_, guarded⟩
    · exact (names_iff.mp named).2
  case inFront =>
    intro tail lists
    obtain ⟨rest, gives', met', _⟩ := (answer_implements_eq_ok_iff sound).mp lists
    exact names_iff.mpr ⟨sound, _, guarded.cons gives' met'⟩
  case skipped =>
    refine ⟨names_iff.mpr ⟨sound, _, skipping⟩, fun place => ?_⟩
    rw [skipping.answer_value sound]
    · rfl
    · exact (Form.unmet_eq_nil_iff (skipping.wellFormed.settled not_false)).mpr ⟨deep, rfl⟩
  case inType =>
    exact fun expands => gives.answer_name_guards evaluable guardable expands _
  case inConstant =>
    exact fun expands => gives.answer_value_guards evaluable guardable expands _
  case evaluates =>
    exact fun guard expands => gives.answer_boolGuard sound guardable guard expands _

end BoolGuard

/--
Guards of types are true of the types that can be named, and are refused as naming is for all others. The
guard of a boolean expression can always be named, even if the expression fails, and only its value evaluates
it.
-/
theorem guards_show_naming (program : Program) :
    (∀ {type : Ty} {how : Mention}, how.GuardsType → program.Expands type →
      program.ExpandsConstant (.mention how type) → ∀ place, program.ShowsNaming place how type) ∧
    ∀ {type : Ty} {value : Value}, program.answer (.implements .boolExpr type) = .ok value →
      program.GuardsQuietly type :=
  ⟨showsNaming, guardsQuietly⟩

/-- A failing boolean expression can be named under both guards, and fails where its guard is evaluated. -/
theorem guards_show_naming_of_broken :
    (∀ value, bare.answer (.value .item (.mention .typeGuard (.atom (.broken 1)))) = .ok value ↔
      bare.Names (.atom (.broken 1)) ∧ value = .flag true) ∧
    bare.Names (.wrap .typeGuard (guardOf (.atom (.broken 1)))) ∧
    bare.answer (.value .body (.mention .boolGuard (.atom (.broken 1)))) = .error (.constant "Broken 1") := by
  obtain ⟨shows, quiet⟩ := guards_show_naming bare
  have broken : bare.Gives (.atom (.broken 1)) (.atom (.broken 1)) := ⟨_, _, opens_bare, rfl, rfl⟩
  have expands (how : Mention) : bare.ExpandsConstant (.mention how (.atom (.broken 1))) :=
    ⟨_, .mention how (.atom (.broken 1)), opens_bare, by cases how <;> rfl⟩
  have guards := quiet ((broken.answer_implements sound_bare .boolExpr).trans rfl)
  refine ⟨(shows (.inl rfl) (gives_iff.mp broken).1 (expands .typeGuard) .item).value_iff,
    guards.named.2, ?_⟩
  rw [guards.evaluates (.inl rfl) (expands .boolGuard), broken.answer_value sound_bare rfl]
  rfl

/-- A type that carries the guard of a type, which carries the guard of another one, and so on. -/
def nestedGuards : Nat → Ty
  | 0 => .atom .notEvaluable
  | count + 1 => .bool (.mention .eagerType (nestedGuards count))

/--
A type may be refused for a minus sign, and so are its guards then. And an inline guard stands one level above
those in its type, so that there may be no room for it although the type can be named.
-/
theorem guards_not_always_as_naming :
    (¬ ∀ (program : Program) (type : Ty) (refusal : Refusal), program.Expands type →
      program.ExpandsConstant (.mention .typeGuard type) →
      program.answer (.value .item (.mention .typeGuard type)) = .error refusal →
        refusal = .illTyped ∨ refusal = .tooDeep ∨ ∃ report, refusal = .constant report) ∧
    ¬ ∀ (program : Program) (type : Ty), program.Names type →
      program.answer (.value .item (.mention .eagerType type)) = .ok (.flag true) := by
  constructor
  · intro claim
    have refused := claim bare
      (.bool (.compare .lt ⟨false, .eight⟩ (.literal true 1) (.literal false 0))) .unsignedMinus
      ⟨_, _, opens_bare, rfl⟩ ⟨_, _, opens_bare, rfl⟩ rfl
    rcases refused with same | same | ⟨_, same⟩ <;> cases same
  · intro claim
    have opens : (⟨8, [], []⟩ : Program).Opens (Scope.ofAliases 8 []) := ⟨[], rfl, rfl⟩
    have gives : (⟨8, [], []⟩ : Program).Gives (nestedGuards 8) (.bool (some true)) :=
      ⟨_, _, opens, rfl, rfl⟩
    have fails := claim ⟨8, [], []⟩ (nestedGuards 8) (names_iff.mpr ⟨⟨_, opens, rfl⟩, _, gives⟩)
    cases fails

end Program

end TypeLists
