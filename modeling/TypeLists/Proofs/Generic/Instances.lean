import TypeLists.Proofs.Aliases.Constants
import TypeLists.Proofs.Constant.Alike
import TypeLists.Proofs.Generic.Filling

/-! Types and constants with parameters, checked once and filled afterwards: what is in order whatever the
parameters stand for is in order with forms in their place, but for the depth of proofs. -/

namespace TypeLists

/-- The computation has the value, and nothing comes up in it but proofs that are too deep. -/
structure Checked.Deep {result : Type} (checked : Checked result) (value : result) : Prop where
  value : checked.value = value
  findings : ∀ finding ∈ checked.findings, finding.fault = .tooDeep

namespace Checked

variable {source result : Type} {checked : Checked source} {value : source}

theorem deep_clean (value : source) : (clean value).Deep value :=
  ⟨rfl, fun _ member => absurd member List.not_mem_nil⟩

theorem deep_pure (value : source) : (pure value : Checked source).Deep value := deep_clean value

theorem Deep.bind (deep : checked.Deep value) {next : source → Checked result} {value' : result}
    (deep' : (next value).Deep value') : (checked >>= next).Deep value' := by
  obtain ⟨rfl, findings⟩ := deep
  exact ⟨deep'.value, List.forall_mem_append.mpr ⟨findings, deep'.findings⟩⟩

theorem Deep.noted {stage : Stage} {faults : List Fault} (all : ∀ fault ∈ faults, fault = .tooDeep)
    (deep : checked.Deep value) : (do note stage faults; checked).Deep value := by
  have noted : (note stage faults).Deep () := by
    refine ⟨rfl, fun finding member => ?_⟩
    obtain ⟨fault, inside, rfl⟩ := List.mem_map.mp member
    exact all fault inside
  exact noted.bind deep

end Checked

/-- No constant among the leaves of a type names a parameter. -/
def Leaf.Concrete (leaves : List Leaf) : Prop :=
  ∀ constant, .carried constant ∈ leaves → ∀ param, constant.uses (.param param) = []

theorem Leaf.concrete_append_iff {leaves leaves' : List Leaf} :
    Concrete (leaves ++ leaves') ↔ Concrete leaves ∧ Concrete leaves' := by
  simp only [Concrete, List.mem_append, or_imp, forall_and]

/-- The scope of a function with a bound, where no more is known of its parameters. -/
def Scope.opened (scope : Scope) (bound : Option Bound) : Scope :=
  scope.withParams (.hole (.param true bound)) (.hole (.param false none))

/-- The scope of a call, which gives forms to the parameters. -/
def Scope.calling (scope : Scope) (forms : Form × Form) : Scope :=
  scope.withParams forms.1 forms.2

section Fill

variable {scope : Scope} {bound : Option Bound} {forms : Form × Form}

/-- The parameters are all that is not known in a function. -/
theorem Scope.WellFormed.opened (names : scope.WellFormed fun _ => False) :
    (scope.opened bound).WellFormed (Hole.Given bound) := by
  intro name form named
  rcases name with label | param
  · obtain ⟨closed, rules⟩ := names _ _ named
    exact ⟨fun hole member => (closed hole member).elim, rules⟩
  · cases param with
    | expression =>
      cases named
      exact ⟨fun hole member => .inl (List.mem_singleton.mp member), rfl⟩
    | type =>
      cases named
      exact ⟨fun hole member => .inr (List.mem_singleton.mp member), rfl⟩

theorem Hole.not_given_lost : ¬ Hole.lost.Given bound := by
  rintro (same | same) <;> cases same

/-- In the normal form of a type in a function, nothing is unknown but the parameters. -/
theorem Ty.given_of_clean (names : scope.WellFormed fun _ => False) {type : Ty} {form : Form}
    (clean : type.normalize (scope.opened bound) = .clean form) : ∀ hole ∈ form.holes, hole.Given bound :=
  (Ty.wellFormed_normalize Hole.not_given_lost names.opened type clean).1

/-- A constant without parameters is evaluated alike in a function and in its calls. -/
theorem Constant.settle_calling (scope : Scope) (bound : Option Bound) (forms : Form × Form)
    {constant : Constant Ty} (concrete : ∀ param, constant.uses (.param param) = []) :
    settle (constant.normalize (scope.calling forms)) = settle (constant.normalize (scope.opened bound)) := by
  -- The two scopes differ in the parameters alone, and the constant names none.
  have respects : (scope.calling forms).Respects Eq (scope.opened bound) := Scope.respects_eq rfl rfl
  refine Constant.settle_congr (constant.normalize_alike respects fun name use member => ?_)
  rcases name with label | param
  · exact respects.agrees (.refl _) use
  · simp only [concrete param] at member
    cases member

theorem Form.deep_formed (met : Bound.Met bound forms) {limit : Nat} {form : Form}
    (given : ∀ hole ∈ form.holes, hole.Given bound) (rules : form.malformed limit = [])
    (former : ∀ cause, form ≠ .hole cause) : (Form.formed limit (form.fill forms)).Deep (form.fill forms) :=
  (Checked.deep_pure _).noted (form.malformed_fill met former given rules)

/-- A projection that is known to give a form gives it filled. -/
theorem Form.deep_projected (met : Bound.Met bound forms) {limit : Nat} {subject inner : Form} (trait : Trait)
    (asked : trait.Asked) (given : ∀ hole ∈ subject.holes, hole.Given bound)
    (rules : subject.unmet limit trait = []) {result? : Option Form} (result : result? = some inner) :
    ((subject.fill forms).projected limit trait result?).Deep inner := by
  have known : (subject.fill forms).settled := by
    rw [Form.settled, subject.holes_fill met given]
    rfl
  have value : (if (subject.fill forms).settled then result?.getD .lost else .lost) = inner := by
    rw [if_pos known, result, Option.getD_some]
  rw [Form.projected, value]
  exact (Checked.deep_pure _).noted (subject.unmet_fill met given trait asked rules)

/-- A former with one parameter is applied as before, and what it borrows is known. -/
theorem Form.deep_wrapped (met : Bound.Met bound forms) {wrapper : Wrapper} {inner : Form}
    (given : ∀ hole ∈ inner.holes, hole.Given bound)
    (rules : (Form.wrap (wrapper.living scope.lifetime) inner).malformed scope.limit = []) :
    (Form.wrapped (scope.calling forms) wrapper (inner.fill forms)).Deep
      ((Form.wrap (wrapper.living scope.lifetime) inner).fill forms) := by
  have known : (inner.fill forms).closed := by
    rw [Form.closed, inner.holes_fill met given]
    rfl
  have whole : ∀ hole ∈ (Form.wrap (wrapper.living scope.lifetime) inner).holes, hole.Given bound := given
  refine Checked.Deep.noted ?_ (Form.deep_formed met whole rules (by simp))
  -- No reference can outlive a form that is known.
  rw [known]
  simp

theorem Mention.unmet_fill (met : Bound.Met bound forms) (how : Mention) {form : Form}
    (given : ∀ hole ∈ form.holes, hole.Given bound) {limit : Nat} (clean : how.unmet limit form = []) :
    ∀ fault ∈ how.unmet limit (form.fill forms), fault = .tooDeep := by
  cases how with
  | value => exact form.unmet_fill met given .boolExpr trivial clean
  | boolGuard => exact form.unguardable_fill met given clean
  | eagerBool => exact form.unguardable_fill met given clean
  | typeGuard => exact fun _ member => absurd member List.not_mem_nil
  | eagerType => exact fun _ member => absurd member List.not_mem_nil

theorem Constant.normalizeTokens_calling (met : Bound.Met bound forms)
    (names : scope.WellFormed fun _ => False) : ∀ (tokens : List (Token (Constant Ty))) {form : Form},
    Leaf.Concrete (Constant.tokenLeaves tokens) →
      Constant.normalizeTokens (scope.opened bound) tokens = .clean form →
        (Constant.normalizeTokens (scope.calling forms) tokens).Deep (form.fill forms)
  | [], form, _, clean => by
    simp only [Constant.normalizeTokens, Checked.pure_eq_clean_iff] at clean
    subst clean
    exact Checked.deep_pure _
  | .comma :: rest, form, concrete, clean => by
    rw [Constant.normalizeTokens] at clean ⊢
    exact Constant.normalizeTokens_calling met names rest concrete clean
  | .element head :: rest, form, concrete, clean => by
    have given := (Constant.wellFormed_normalizeTokens Hole.not_given_lost names.opened _ clean).1
    have same := Constant.settle_calling scope bound forms (concrete head List.mem_cons_self)
    simp only [Constant.normalizeTokens, Checked.bind_eq_clean_iff, Form.formed_eq_clean_iff] at clean
    obtain ⟨value, valueClean, tail', tailClean, rules, rfl⟩ := clean
    rw [Constant.normalizeTokens, same, valueClean]
    exact (Checked.deep_clean value).bind ((Constant.normalizeTokens_calling met names rest
      (fun constant member => concrete constant (List.mem_cons_of_mem _ member)) tailClean).bind
        (Form.deep_formed met given rules (by simp)))

mutual

/-- The normal form of a type in a call is the one in the function, with the forms of the call filled in. -/
theorem Ty.normalize_calling (met : Bound.Met bound forms) (names : scope.WellFormed fun _ => False) :
    ∀ (type : Ty) {form : Form}, Leaf.Concrete type.leaves →
      type.normalize (scope.opened bound) = .clean form →
        (type.normalize (scope.calling forms)).Deep (form.fill forms)
  -- Every rule that is met in the function is met in the call, if the proof of it is not too deep.
  | .atom leaf, form, _, clean => by
    simp only [Ty.normalize, Checked.pure_eq_clean_iff] at clean
    subst clean
    exact Checked.deep_pure _
  | .wrap wrapper inner, form, concrete, clean => by
    have given := Ty.given_of_clean names clean
    simp only [Ty.normalize, Checked.bind_eq_clean_iff, Form.wrapped_eq_clean_iff] at clean
    obtain ⟨inner', innerClean, _, rules, rfl⟩ := clean
    exact (Ty.normalize_calling met names inner concrete innerClean).bind
      (Form.deep_wrapped met given rules)
  | .cons head tail, form, concrete, clean => by
    have given := Ty.given_of_clean names clean
    obtain ⟨first, second⟩ := Leaf.concrete_append_iff.mp concrete
    simp only [Ty.normalize, Checked.bind_eq_clean_iff, Form.formed_eq_clean_iff] at clean
    obtain ⟨head', headClean, tail', tailClean, rules, rfl⟩ := clean
    exact (Ty.normalize_calling met names head first headClean).bind
      ((Ty.normalize_calling met names tail second tailClean).bind (Form.deep_formed met given rules (by simp)))
  | .combine combinator left right, form, concrete, clean => by
    have given := Ty.given_of_clean names clean
    obtain ⟨first, second⟩ := Leaf.concrete_append_iff.mp concrete
    simp only [Ty.normalize, Checked.bind_eq_clean_iff, Form.formed_eq_clean_iff] at clean
    obtain ⟨left', leftClean, right', rightClean, rules, rfl⟩ := clean
    exact (Ty.normalize_calling met names left first leftClean).bind
      ((Ty.normalize_calling met names right second rightClean).bind
        (Form.deep_formed met given rules (by simp)))
  | .choice condition positive negative, form, concrete, clean => by
    have given := Ty.given_of_clean names clean
    obtain ⟨first, others⟩ := Leaf.concrete_append_iff.mp concrete
    obtain ⟨second, third⟩ := Leaf.concrete_append_iff.mp others
    simp only [Ty.normalize, Checked.bind_eq_clean_iff, Form.formed_eq_clean_iff] at clean
    obtain ⟨condition', conditionClean, positive', positiveClean, negative', negativeClean, rules, rfl⟩ :=
      clean
    exact (Ty.normalize_calling met names condition first conditionClean).bind
      ((Ty.normalize_calling met names positive second positiveClean).bind
        ((Ty.normalize_calling met names negative third negativeClean).bind
          (Form.deep_formed met given rules (by simp))))
  | .tuple members, form, concrete, clean => by
    have given := Ty.given_of_clean names clean
    simp only [Ty.normalize, Checked.bind_eq_clean_iff, Form.formed_eq_clean_iff] at clean
    obtain ⟨members', membersClean, rules, rfl⟩ := clean
    exact (Ty.normalizeAll_calling met names members concrete membersClean).bind
      (Form.deep_formed met given rules (by simp))
  | .function arguments result, form, concrete, clean => by
    have given := Ty.given_of_clean names clean
    obtain ⟨first, second⟩ := Leaf.concrete_append_iff.mp concrete
    simp only [Ty.normalize, Checked.bind_eq_clean_iff, Form.formed_eq_clean_iff] at clean
    obtain ⟨arguments', argumentsClean, result', resultClean, rules, rfl⟩ := clean
    exact (Ty.normalizeAll_calling met names arguments first argumentsClean).bind
      ((Ty.normalize_calling met names result second resultClean).bind
        (Form.deep_formed met given rules (by simp)))
  | .bool constant, form, concrete, clean => by
    have given := Ty.given_of_clean names clean
    -- No parameter stands in the constant, which has the same value in every call.
    have same := Constant.settle_calling scope bound forms (concrete constant (List.mem_singleton_self _))
    simp only [Ty.normalize, Checked.bind_eq_clean_iff, Form.formed_eq_clean_iff] at clean
    obtain ⟨value, valueClean, rules, rfl⟩ := clean
    rw [Ty.normalize, same, valueClean]
    exact (Checked.deep_clean value).bind (Form.deep_formed met given rules (by simp))
  | .boolCons constant tail, form, concrete, clean => by
    have given := Ty.given_of_clean names clean
    have same := Constant.settle_calling scope bound forms (concrete constant List.mem_cons_self)
    simp only [Ty.normalize, Checked.bind_eq_clean_iff, Form.formed_eq_clean_iff] at clean
    obtain ⟨value, valueClean, tail', tailClean, rules, rfl⟩ := clean
    rw [Ty.normalize, same, valueClean]
    exact (Checked.deep_clean value).bind ((Ty.normalize_calling met names tail
      (fun constant member => concrete constant (List.mem_cons_of_mem _ member)) tailClean).bind
        (Form.deep_formed met given rules (by simp)))
  | .list tokens, form, concrete, clean => by
    rw [Ty.normalize] at clean ⊢
    exact Ty.normalizeTokens_calling met names tokens concrete clean
  | .boolList tokens, form, concrete, clean => by
    rw [Ty.normalize] at clean ⊢
    exact Constant.normalizeTokens_calling met names tokens concrete clean
  | .output subject, form, concrete, clean => by
    simp only [Ty.normalize, Checked.bind_eq_clean_iff] at clean
    obtain ⟨subject', subjectClean, projected⟩ := clean
    have given := Ty.given_of_clean names subjectClean
    rw [Form.projected_eq_clean_iff (Form.settled_of_given given)] at projected
    obtain ⟨rules, rfl⟩ := projected
    -- The function could reduce the projection, and so can the call.
    obtain ⟨inner, output⟩ := Option.isSome_iff_exists.mp rules.2
    rw [output, Option.getD_some]
    have implemented := (Form.unmet_eq_nil_iff (Form.settled_of_given given)).mpr rules
    exact (Ty.normalize_calling met names subject concrete subjectClean).bind
      (Form.deep_projected met .eval trivial given implemented (Form.output?_fill output))
  | .select subject, form, concrete, clean => by
    simp only [Ty.normalize, Checked.bind_eq_clean_iff] at clean
    obtain ⟨subject', subjectClean, projected⟩ := clean
    have given := Ty.given_of_clean names subjectClean
    rw [Form.projected_eq_clean_iff (Form.settled_of_given given)] at projected
    obtain ⟨rules, rfl⟩ := projected
    obtain ⟨inner, select⟩ := Option.isSome_iff_exists.mp rules.2
    rw [select, Option.getD_some]
    have implemented := (Form.unmet_eq_nil_iff (Form.settled_of_given given)).mpr rules
    exact (Ty.normalize_calling met names subject concrete subjectClean).bind
      (Form.deep_projected met .select trivial given implemented (Form.select?_fill met select))
  | .named name, form, _, clean => by
    rw [Ty.normalize] at clean ⊢
    rcases name with label | param
    · -- What an alias stands for has no parameters to fill.
      rw [form.fill_of_lost fun hole member => ((names _ _ clean).1 hole member).elim]
      exact clean ▸ Checked.deep_clean form
    · cases param with
      | expression =>
        cases clean
        exact Checked.deep_clean forms.1
      | type =>
        cases clean
        exact Checked.deep_clean forms.2

theorem Ty.normalizeAll_calling (met : Bound.Met bound forms) (names : scope.WellFormed fun _ => False) :
    ∀ (types : List Ty) {parts : List Form}, Leaf.Concrete (Ty.allLeaves types) →
      Ty.normalizeAll (scope.opened bound) types = .clean parts →
        (Ty.normalizeAll (scope.calling forms) types).Deep (Form.fillAll forms parts)
  | [], parts, _, clean => by
    simp only [Ty.normalizeAll, Checked.pure_eq_clean_iff] at clean
    subst clean
    exact Checked.deep_pure _
  | head :: rest, parts, concrete, clean => by
    obtain ⟨first, others⟩ := Leaf.concrete_append_iff.mp concrete
    simp only [Ty.normalizeAll, Checked.bind_eq_clean_iff, Checked.pure_eq_clean_iff] at clean
    obtain ⟨head', headClean, rest', restClean, rfl⟩ := clean
    exact (Ty.normalize_calling met names head first headClean).bind
      ((Ty.normalizeAll_calling met names rest others restClean).bind (Checked.deep_pure _))

theorem Ty.normalizeTokens_calling (met : Bound.Met bound forms) (names : scope.WellFormed fun _ => False) :
    ∀ (tokens : List (Token Ty)) {form : Form}, Leaf.Concrete (Ty.tokenLeaves tokens) →
      Ty.normalizeTokens (scope.opened bound) tokens = .clean form →
        (Ty.normalizeTokens (scope.calling forms) tokens).Deep (form.fill forms)
  | [], form, _, clean => by
    simp only [Ty.normalizeTokens, Checked.pure_eq_clean_iff] at clean
    subst clean
    exact Checked.deep_pure _
  | .comma :: rest, form, concrete, clean => by
    rw [Ty.normalizeTokens] at clean ⊢
    exact Ty.normalizeTokens_calling met names rest concrete clean
  | .element head :: rest, form, concrete, clean => by
    have given := (Ty.wellFormed_normalizeTokens Hole.not_given_lost names.opened _ clean).1
    obtain ⟨first, others⟩ := Leaf.concrete_append_iff.mp concrete
    simp only [Ty.normalizeTokens, Checked.bind_eq_clean_iff, Form.formed_eq_clean_iff] at clean
    obtain ⟨head', headClean, tail', tailClean, rules, rfl⟩ := clean
    exact (Ty.normalize_calling met names head first headClean).bind
      ((Ty.normalizeTokens_calling met names rest others tailClean).bind
        (Form.deep_formed met given rules (by simp)))

end

/-- An integer expression in a call measures the filled lists, and has the same signs. -/
theorem Arith.normalize_calling (met : Bound.Met bound forms) (names : scope.WellFormed fun _ => False) :
    ∀ (number : Arith Ty) {resolved : Arith Form}, (∀ type ∈ number.lists, Leaf.Concrete type.leaves) →
      number.normalize (scope.opened bound) = .clean resolved →
        ∃ filled, (number.normalize (scope.calling forms)).Deep filled ∧ filled.hasMinus = resolved.hasMinus
  | .literal _ _, resolved, _, clean | .least, resolved, _, clean | .greatest, resolved, _, clean => by
    simp only [Arith.normalize, Checked.pure_eq_clean_iff] at clean
    subst clean
    exact ⟨_, Checked.deep_pure _, rfl⟩
  | .negate operand, resolved, concrete, clean => by
    simp only [Arith.normalize, Checked.bind_eq_clean_iff, Checked.pure_eq_clean_iff] at clean
    obtain ⟨operand', operandClean, rfl⟩ := clean
    obtain ⟨filled, deep, _⟩ := operand.normalize_calling met names concrete operandClean
    exact ⟨_, deep.bind (Checked.deep_pure _), rfl⟩
  | .apply operation left right, resolved, concrete, clean => by
    obtain ⟨first, second⟩ := List.forall_mem_append.mp concrete
    simp only [Arith.normalize, Checked.bind_eq_clean_iff, Checked.pure_eq_clean_iff] at clean
    obtain ⟨left', leftClean, right', rightClean, rfl⟩ := clean
    obtain ⟨filled, deep, signs⟩ := left.normalize_calling met names first leftClean
    obtain ⟨filled', deep', signs'⟩ := right.normalize_calling met names second rightClean
    exact ⟨_, deep.bind (deep'.bind (Checked.deep_pure _)), by rw [hasMinus, hasMinus, signs, signs']⟩
  | .length kind list, resolved, concrete, clean => by
    simp only [Arith.normalize, Checked.bind_eq_clean_iff, Checked.note_eq_clean_iff,
      Checked.pure_eq_clean_iff] at clean
    obtain ⟨list', listClean, _, rules, rfl⟩ := clean
    have given := Ty.given_of_clean names listClean
    exact ⟨_, (list.normalize_calling met names (concrete list List.mem_cons_self) listClean).bind
      ((Checked.deep_pure _).noted (list'.unmet_fill met given (.list kind) trivial rules)), rfl⟩

/-- A constant in a call is the one in the function, with the forms of the call filled into its mentions. -/
theorem Constant.normalize_calling (met : Bound.Met bound forms) (names : scope.WellFormed fun _ => False) :
    ∀ (constant : Constant Ty) {resolved : Constant Form},
      (∀ type ∈ constant.types, Leaf.Concrete type.leaves) →
      constant.normalize (scope.opened bound) = .clean resolved →
        ∃ filled, (constant.normalize (scope.calling forms)).Deep filled ∧
          Constant.Alike (fun _ form form' => form' = form.fill forms) resolved filled
  | .literal value, resolved, _, clean => by
    simp only [Constant.normalize, Checked.pure_eq_clean_iff] at clean
    subst clean
    exact ⟨_, Checked.deep_pure _, .literal value⟩
  | .panic index, resolved, _, clean => by
    simp only [Constant.normalize, Checked.pure_eq_clean_iff] at clean
    subst clean
    exact ⟨_, Checked.deep_pure _, .panic index⟩
  | .not operand, resolved, concrete, clean => by
    simp only [Constant.normalize, Checked.bind_eq_clean_iff, Checked.pure_eq_clean_iff] at clean
    obtain ⟨operand', operandClean, rfl⟩ := clean
    obtain ⟨filled, deep, alike⟩ := operand.normalize_calling met names concrete operandClean
    exact ⟨_, deep.bind (Checked.deep_pure _), .not alike⟩
  | .connect connective left right, resolved, concrete, clean => by
    obtain ⟨first, second⟩ := List.forall_mem_append.mp concrete
    simp only [Constant.normalize, Checked.bind_eq_clean_iff, Checked.pure_eq_clean_iff] at clean
    obtain ⟨left', leftClean, right', rightClean, rfl⟩ := clean
    obtain ⟨filled, deep, alike⟩ := left.normalize_calling met names first leftClean
    obtain ⟨filled', deep', alike'⟩ := right.normalize_calling met names second rightClean
    exact ⟨_, deep.bind (deep'.bind (Checked.deep_pure _)), .connect connective alike alike'⟩
  | .choose condition positive negative, resolved, concrete, clean => by
    obtain ⟨others, third⟩ := List.forall_mem_append.mp concrete
    obtain ⟨first, second⟩ := List.forall_mem_append.mp others
    simp only [Constant.normalize, Checked.bind_eq_clean_iff, Checked.pure_eq_clean_iff] at clean
    obtain ⟨condition', conditionClean, positive', positiveClean, negative', negativeClean, rfl⟩ := clean
    obtain ⟨filled, deep, alike⟩ := condition.normalize_calling met names first conditionClean
    obtain ⟨filled', deep', alike'⟩ := positive.normalize_calling met names second positiveClean
    obtain ⟨filled'', deep'', alike''⟩ := negative.normalize_calling met names third negativeClean
    exact ⟨_, deep.bind (deep'.bind (deep''.bind (Checked.deep_pure _))), .choose alike alike' alike''⟩
  | .compare comparison kind left right, resolved, concrete, clean => by
    obtain ⟨first, second⟩ := List.forall_mem_append.mp concrete
    simp only [Constant.normalize, Checked.bind_eq_clean_iff, Checked.note_eq_clean_iff,
      Checked.pure_eq_clean_iff] at clean
    obtain ⟨left', leftClean, right', rightClean, _, signed, rfl⟩ := clean
    obtain ⟨filled, deep, signs⟩ := left.normalize_calling met names first leftClean
    obtain ⟨filled', deep', signs'⟩ := right.normalize_calling met names second rightClean
    refine ⟨_, deep.bind (deep'.bind ((Checked.deep_pure _).noted ?_)), .compare comparison kind _ _ _ _⟩
    rw [signs, signs', signed]
    exact fun _ member => absurd member List.not_mem_nil
  | .mention how subject, resolved, concrete, clean => by
    -- What may be mentioned whatever the parameters are, may be mentioned in the call.
    simp only [Constant.normalize, Checked.bind_eq_clean_iff, Checked.note_eq_clean_iff,
      Checked.pure_eq_clean_iff] at clean
    obtain ⟨subject', subjectClean, _, rules, rfl⟩ := clean
    have given := Ty.given_of_clean names subjectClean
    exact ⟨_, (subject.normalize_calling met names (concrete subject List.mem_cons_self) subjectClean).bind
      ((Checked.deep_pure _).noted (how.unmet_fill met given rules)), .mention how rfl⟩

end Fill

end TypeLists
