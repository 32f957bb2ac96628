import TypeLists.Proofs.WellFormed

/-! Normalization without findings: the normal form of a type in which nothing is found is well-formed,
and the holes in it are those of the names that it uses. -/

namespace TypeLists

/-- A form is held against the rules of its former without a finding if it breaks none. -/
@[simp] theorem Form.formed_eq_clean_iff {limit : Nat} {form other : Form} :
    form.formed limit = .clean other ↔ form.malformed limit = [] ∧ form = other := by
  simp [formed]

/-- A former is applied without a finding only if the result breaks no rule. -/
theorem Form.wrapped_eq_clean_iff {scope : Scope} {wrapper : Wrapper} {inner other : Form} :
    Form.wrapped scope wrapper inner = .clean other ↔
      (wrapper.borrows → inner.closed) ∧
        (Form.wrap (wrapper.living scope.lifetime) inner).malformed scope.limit = [] ∧
        Form.wrap (wrapper.living scope.lifetime) inner = other := by
  simp [wrapped]

/-- A projection of a settled form gives what the form gives, if the form is known to give something. -/
theorem Form.projected_eq_clean_iff {limit : Nat} {trait : Trait} {result? : Option Form}
    {subject other : Form} (settled : subject.settled) :
    subject.projected limit trait result? = .clean other ↔
      (subject.proofDepth trait ≤ limit ∧ subject.implements trait) ∧ result?.getD .lost = other := by
  simp [projected, settled, unmet_eq_nil_iff settled]

/-- A constant gets a value exactly if nothing is wrong with it and its evaluation succeeds. -/
theorem Constant.settle_eq_clean_iff {constant : Checked (Constant Form)} {value : Option Bool} :
    Constant.settle constant = .clean value ↔
      ∃ resolved result, constant = .clean resolved ∧
        resolved.asItem Form.reading = .ok result ∧ value = some result := by
  unfold Constant.settle
  cases faults : constant.faults with
  | cons fault rest =>
    -- A fault is reported with the constant, which has no value then.
    have faulty : ∀ resolved, constant ≠ .clean resolved := by
      intro resolved same
      rw [same] at faults
      cases faults
    simp [Checked.eq_clean_iff, faulty]
  | nil =>
    have clean := Checked.faults_eq_nil_iff.mp faults
    cases outcome : constant.value.asItem Form.reading with
    | error failure =>
      simp only
      constructor
      · intro same
        have findings := (Checked.eq_clean_iff.mp same).2
        cases findings
      · intro evaluated
        obtain ⟨resolved, result, same, succeeds, _⟩ := evaluated
        rw [same] at outcome
        exact absurd (outcome.symm.trans succeeds) (by simp)
    | ok result =>
      simp only
      constructor
      · intro same
        exact ⟨_, result, clean, outcome, (Checked.eq_clean_iff.mp same).1.symm⟩
      · intro evaluated
        obtain ⟨resolved, other, same, succeeds, rfl⟩ := evaluated
        rw [same] at outcome
        cases outcome.symm.trans succeeds
        rfl

section WellFormed

variable {allowed : Hole → Prop} {scope : Scope}

/-- All names of a scope that stand for something stand for well-formed forms. -/
def Scope.WellFormed (allowed : Hole → Prop) (scope : Scope) : Prop :=
  ∀ name form, scope.meaning name = .clean form → form.WellFormed allowed scope.limit

mutual

/-- The normal form of a type in which nothing is found is well-formed. -/
theorem Ty.wellFormed_normalize (known : ¬ allowed .lost) (names : scope.WellFormed allowed) :
    ∀ (type : Ty) {form : Form}, type.normalize scope = .clean form →
      form.WellFormed allowed scope.limit
  | .atom leaf, form, clean => by
    simp only [Ty.normalize, Checked.pure_eq_clean_iff] at clean
    subst clean
    exact Form.wellFormed_atom leaf
  | .wrap wrapper inner, form, clean => by
    simp only [Ty.normalize, Checked.bind_eq_clean_iff, Form.wrapped_eq_clean_iff] at clean
    obtain ⟨inner', innerClean, _, rules, rfl⟩ := clean
    exact Form.wellFormed_wrap_iff.mpr
      ⟨Ty.wellFormed_normalize known names inner innerClean, rules⟩
  | .cons head tail, form, clean => by
    simp only [Ty.normalize, Checked.bind_eq_clean_iff, Form.formed_eq_clean_iff] at clean
    obtain ⟨head', headClean, tail', tailClean, rules, rfl⟩ := clean
    exact Form.wellFormed_cons_iff.mpr ⟨Ty.wellFormed_normalize known names head headClean,
      Ty.wellFormed_normalize known names tail tailClean, rules⟩
  | .combine combinator left right, form, clean => by
    simp only [Ty.normalize, Checked.bind_eq_clean_iff, Form.formed_eq_clean_iff] at clean
    obtain ⟨left', leftClean, right', rightClean, rules, rfl⟩ := clean
    exact Form.wellFormed_combine_iff.mpr ⟨Ty.wellFormed_normalize known names left leftClean,
      Ty.wellFormed_normalize known names right rightClean, rules⟩
  | .choice condition positive negative, form, clean => by
    simp only [Ty.normalize, Checked.bind_eq_clean_iff, Form.formed_eq_clean_iff] at clean
    obtain ⟨condition', conditionClean, positive', positiveClean, negative', negativeClean, rules,
      rfl⟩ := clean
    exact Form.wellFormed_choice_iff.mpr
      ⟨Ty.wellFormed_normalize known names condition conditionClean,
        Ty.wellFormed_normalize known names positive positiveClean,
        Ty.wellFormed_normalize known names negative negativeClean, rules⟩
  | .tuple members, form, clean => by
    simp only [Ty.normalize, Checked.bind_eq_clean_iff, Form.formed_eq_clean_iff] at clean
    obtain ⟨members', membersClean, rules, rfl⟩ := clean
    exact Form.wellFormed_tuple_iff.mpr
      ⟨Ty.wellFormed_normalizeAll known names members membersClean, rules⟩
  | .function arguments result, form, clean => by
    simp only [Ty.normalize, Checked.bind_eq_clean_iff, Form.formed_eq_clean_iff] at clean
    obtain ⟨arguments', argumentsClean, result', resultClean, _, rfl⟩ := clean
    exact Form.wellFormed_function_iff.mpr
      ⟨Ty.wellFormed_normalizeAll known names arguments argumentsClean,
        Ty.wellFormed_normalize known names result resultClean⟩
  | .bool constant, form, clean => by
    simp only [Ty.normalize, Checked.bind_eq_clean_iff, Form.formed_eq_clean_iff,
      Constant.settle_eq_clean_iff] at clean
    obtain ⟨_, ⟨_, value, _, _, rfl⟩, _, rfl⟩ := clean
    exact Form.wellFormed_bool_some value
  | .boolCons constant tail, form, clean => by
    simp only [Ty.normalize, Checked.bind_eq_clean_iff, Form.formed_eq_clean_iff,
      Constant.settle_eq_clean_iff] at clean
    obtain ⟨_, ⟨_, value, _, _, rfl⟩, tail', tailClean, rules, rfl⟩ := clean
    exact Form.wellFormed_boolCons_some_iff.mpr
      ⟨Ty.wellFormed_normalize known names tail tailClean, rules⟩
  | .list tokens, form, clean =>
    Ty.wellFormed_normalizeTokens known names tokens (by simpa only [Ty.normalize] using clean)
  | .boolList tokens, form, clean =>
    Constant.wellFormed_normalizeTokens known names tokens
      (by simpa only [Ty.normalize] using clean)
  | .output subject, form, clean => by
    simp only [Ty.normalize, Checked.bind_eq_clean_iff] at clean
    obtain ⟨subject', subjectClean, projected⟩ := clean
    have inner := Ty.wellFormed_normalize known names subject subjectClean
    -- A delayed type gives back a part of itself.
    rw [Form.projected_eq_clean_iff (inner.settled known)] at projected
    obtain ⟨⟨_, implements⟩, rfl⟩ := projected
    obtain ⟨result, gives⟩ := Option.isSome_iff_exists.mp implements
    rw [gives]
    exact inner.output gives
  | .select subject, form, clean => by
    simp only [Ty.normalize, Checked.bind_eq_clean_iff] at clean
    obtain ⟨subject', subjectClean, projected⟩ := clean
    have inner := Ty.wellFormed_normalize known names subject subjectClean
    rw [Form.projected_eq_clean_iff (inner.settled known)] at projected
    obtain ⟨⟨_, implements⟩, rfl⟩ := projected
    obtain ⟨result, gives⟩ := Option.isSome_iff_exists.mp implements
    rw [gives]
    exact inner.select gives
  | .named name, form, clean => names name form (by simpa only [Ty.normalize] using clean)

/-- The normal forms of types in which nothing is found are well-formed. -/
theorem Ty.wellFormed_normalizeAll (known : ¬ allowed .lost) (names : scope.WellFormed allowed) :
    ∀ (types : List Ty) {forms : List Form}, Ty.normalizeAll scope types = .clean forms →
      ∀ form ∈ forms, form.WellFormed allowed scope.limit
  | [], forms, clean => by
    simp only [Ty.normalizeAll, Checked.pure_eq_clean_iff] at clean
    subst clean
    simp
  | head :: rest, forms, clean => by
    simp only [Ty.normalizeAll, Checked.bind_eq_clean_iff, Checked.pure_eq_clean_iff] at clean
    obtain ⟨head', headClean, rest', restClean, rfl⟩ := clean
    intro form member
    rcases List.mem_cons.mp member with rfl | member
    · exact Ty.wellFormed_normalize known names head headClean
    · exact Ty.wellFormed_normalizeAll known names rest restClean form member

/-- The chain of a type list in which nothing is found is well-formed. -/
theorem Ty.wellFormed_normalizeTokens (known : ¬ allowed .lost)
    (names : scope.WellFormed allowed) :
    ∀ (tokens : List (Token Ty)) {form : Form}, Ty.normalizeTokens scope tokens = .clean form →
      form.WellFormed allowed scope.limit
  | [], form, clean => by
    simp only [Ty.normalizeTokens, Checked.pure_eq_clean_iff] at clean
    subst clean
    exact Form.wellFormed_atom .nil
  | .comma :: rest, form, clean =>
    Ty.wellFormed_normalizeTokens known names rest (by simpa only [Ty.normalizeTokens] using clean)
  | .element head :: rest, form, clean => by
    simp only [Ty.normalizeTokens, Checked.bind_eq_clean_iff, Form.formed_eq_clean_iff] at clean
    obtain ⟨head', headClean, tail, tailClean, rules, rfl⟩ := clean
    exact Form.wellFormed_cons_iff.mpr ⟨Ty.wellFormed_normalize known names head headClean,
      Ty.wellFormed_normalizeTokens known names rest tailClean, rules⟩

/-- The chain of a boolean list in which nothing is found is well-formed. -/
theorem Constant.wellFormed_normalizeTokens (known : ¬ allowed .lost)
    (names : scope.WellFormed allowed) :
    ∀ (tokens : List (Token (Constant Ty))) {form : Form},
      Constant.normalizeTokens scope tokens = .clean form → form.WellFormed allowed scope.limit
  | [], form, clean => by
    simp only [Constant.normalizeTokens, Checked.pure_eq_clean_iff] at clean
    subst clean
    exact Form.wellFormed_atom .boolNil
  | .comma :: rest, form, clean =>
    Constant.wellFormed_normalizeTokens known names rest
      (by simpa only [Constant.normalizeTokens] using clean)
  | .element head :: rest, form, clean => by
    simp only [Constant.normalizeTokens, Checked.bind_eq_clean_iff, Form.formed_eq_clean_iff,
      Constant.settle_eq_clean_iff] at clean
    obtain ⟨_, ⟨_, value, _, _, rfl⟩, tail, tailClean, rules, rfl⟩ := clean
    exact Form.wellFormed_boolCons_some_iff.mpr
      ⟨Constant.wellFormed_normalizeTokens known names rest tailClean, rules⟩

end

end WellFormed

/-- A name that stands for nothing, or for a type that contains it, is a finding. -/
theorem Scope.circular_ne_clean {name : TypeName} {form : Form} :
    Scope.circular name ≠ .clean form := by
  simp [circular, Checked.eq_clean_iff]

/-- Aliases stand for well-formed forms without holes, however they refer to one another. -/
theorem Scope.wellFormed_aliases {limit depth : Nat} {definitions : List (String × Ty)}
    {name : TypeName} {form : Form}
    (clean : Scope.aliases limit depth definitions name = .clean form) :
    form.WellFormed (fun _ => False) limit := by
  -- The induction is on the bound: inside of an alias, names stand one level lower.
  induction depth generalizing definitions name form with
  | zero => exact absurd clean circular_ne_clean
  | succ depth ih =>
    rcases name with name | param
    · unfold aliases at clean
      split at clean
      · rename_i body found
        exact Ty.wellFormed_normalize not_false (fun name form inner => ih inner) body clean
      · exact absurd clean circular_ne_clean
    · exact absurd clean circular_ne_clean

end TypeLists
