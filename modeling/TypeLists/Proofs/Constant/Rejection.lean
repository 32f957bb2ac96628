import TypeLists.Proofs.Constant.Tripping

/-! What a guard rejects, rejects the constant and the type around it: the one fault is found wherever the guard
stands, and what is lost to it gives rise to no other. -/

namespace TypeLists

/-- Where names stand for types without holes, so does every type without findings. -/
theorem Scope.WellFormed.holes_eq_nil {scope : Scope} (names : scope.WellFormed fun _ => False)
    {type : Ty} {form : Form} (clean : type.normalize scope = .clean form) : form.holes = [] :=
  List.eq_nil_iff_forall_not_mem.mpr (Ty.wellFormed_normalize not_false names type clean).1

/-- Nor do any of some types without findings have holes. -/
theorem Scope.WellFormed.allHoles_eq_nil {scope : Scope} (names : scope.WellFormed fun _ => False)
    {types : List Ty} {forms : List Form} (clean : Ty.normalizeAll scope types = .clean forms) :
    Form.allHoles forms = [] := by
  rw [Form.allHoles_eq, List.flatMap_eq_nil_iff]
  intro form member
  exact List.eq_nil_iff_forall_not_mem.mpr
    (Ty.wellFormed_normalizeAll not_false names types clean form member).1

section Rejection

variable {scope : Scope} {name : TypeName} {good bad : Form} {fault : Fault}

mutual

/-- A type in which a name marks guarded types is lost to what the guards find in a bad one. -/
theorem Ty.tripped (names : (scope.setting name good).WellFormed fun _ => False)
    (trips : bad.Trips scope.limit fault) : ∀ (type : Ty) {before : Form},
      Guarded (type.uses name) → type.normalize (scope.setting name good) = .clean before →
        Tripped fault (type.uses name) before Form.Lost (type.normalize (scope.setting name bad))
  -- Every former looks at all of its parts, and asks nothing of what was lost in them.
  | .atom leaf, before, _, clean => by
    simp only [Ty.normalize, Checked.pure_eq_clean_iff] at clean
    subst clean
    exact .clean _
  | .wrap wrapper inner, before, guarded, clean => by
    simp only [Ty.normalize, Checked.bind_eq_clean_iff, Form.wrapped_eq_clean_iff] at clean
    obtain ⟨inner', innerClean, borrows, rules, rfl⟩ := clean
    have whole := names.holes_eq_nil innerClean
    -- No reference outlives what was lost, since only parameters can be outlived.
    refine (inner.tripped names trips guarded innerClean).map₁ _ (fun kept => ?_) fun lost => lost
    refine Form.wrapped_eq_clean_iff.mpr ⟨fun _ => Form.closed_of_kept whole kept, ?_, rfl⟩
    exact Form.malformed_wrap_of_kept kept rules
  | .cons head tail, before, guarded, clean => by
    simp only [Ty.normalize, Checked.bind_eq_clean_iff, Form.formed_eq_clean_iff] at clean
    obtain ⟨head', headClean, tail', tailClean, rules, rfl⟩ := clean
    obtain ⟨headGuarded, tailGuarded⟩ := guarded_append_iff.mp guarded
    have whole := names.holes_eq_nil headClean
    have whole' := names.holes_eq_nil tailClean
    -- Of the two parts, only the tail has to be anything.
    refine (head.tripped names trips headGuarded headClean).map₂
      (tail.tripped names trips tailGuarded tailClean) _ (fun _ kept => ?_) fun kept kept' lost => ?_
    · exact Form.formed_eq_clean_iff.mpr ⟨Form.unmet_of_kept kept rules, rfl⟩
    · exact Form.lost_pair whole whole' kept kept' lost
  | .combine combinator left right, before, guarded, clean => by
    simp only [Ty.normalize, Checked.bind_eq_clean_iff, Form.formed_eq_clean_iff] at clean
    obtain ⟨left', leftClean, right', rightClean, rules, rfl⟩ := clean
    obtain ⟨leftGuarded, rightGuarded⟩ := guarded_append_iff.mp guarded
    have whole := names.holes_eq_nil leftClean
    have whole' := names.holes_eq_nil rightClean
    refine (left.tripped names trips leftGuarded leftClean).map₂
      (right.tripped names trips rightGuarded rightClean) _ (fun kept kept' => ?_)
      fun kept kept' lost => ?_
    · exact Form.formed_eq_clean_iff.mpr ⟨Form.malformed_combine_of_kept kept kept' rules, rfl⟩
    · exact Form.lost_pair whole whole' kept kept' lost
  | .choice condition positive negative, before, guarded, clean => by
    simp only [Ty.normalize, Checked.bind_eq_clean_iff, Form.formed_eq_clean_iff] at clean
    obtain ⟨condition', conditionClean, positive', positiveClean, negative', negativeClean, rules,
      rfl⟩ := clean
    obtain ⟨conditionGuarded, others⟩ := guarded_append_iff.mp guarded
    obtain ⟨positiveGuarded, negativeGuarded⟩ := guarded_append_iff.mp others
    have whole := names.holes_eq_nil conditionClean
    have whole' := names.holes_eq_nil positiveClean
    have whole'' := names.holes_eq_nil negativeClean
    -- The branches are lost one like the other, whichever of them would be chosen.
    refine (condition.tripped names trips conditionGuarded conditionClean).map₃
      (positive.tripped names trips positiveGuarded positiveClean)
      (negative.tripped names trips negativeGuarded negativeClean) _
      (fun kept kept' kept'' => ?_) fun kept kept' kept'' lost => ?_
    · exact Form.formed_eq_clean_iff.mpr
        ⟨Form.malformed_choice_of_kept kept kept' kept'' rules, rfl⟩
    · have all := Form.holes_of_kept whole kept
      have all' := Form.holes_of_kept whole' kept'
      have all'' := Form.holes_of_kept whole'' kept''
      refine Form.holes_append (List.forall_mem_append.mpr ⟨all, all'⟩) all'' ?_
      simp only [ne_eq, List.append_eq_nil_iff, not_and_or]
      exact or_assoc.mpr (lost.imp And.left (Or.imp And.left And.left))
  | .tuple members, before, guarded, clean => by
    simp only [Ty.normalize, Checked.bind_eq_clean_iff, Form.formed_eq_clean_iff] at clean
    obtain ⟨members', membersClean, rules, rfl⟩ := clean
    have whole := names.allHoles_eq_nil membersClean
    -- All members but the last are asked for their size, and the lost ones are not.
    refine (Ty.trippedAll names trips members guarded membersClean).map₁ _ (fun kept => ?_)
      fun lost => lost.allHoles whole
    refine Form.formed_eq_clean_iff.mpr ⟨?_, rfl⟩
    exact Form.unmet_of_forall₂ (Form.forall₂_of_kept kept) rules
  | .function arguments result, before, guarded, clean => by
    simp only [Ty.normalize, Checked.bind_eq_clean_iff, Form.formed_eq_clean_iff] at clean
    obtain ⟨arguments', argumentsClean, result', resultClean, _, rfl⟩ := clean
    obtain ⟨argumentsGuarded, resultGuarded⟩ := guarded_append_iff.mp guarded
    have whole := names.allHoles_eq_nil argumentsClean
    have whole' := names.holes_eq_nil resultClean
    -- A function asks nothing of its parts.
    refine (Ty.trippedAll names trips arguments argumentsGuarded argumentsClean).map₂
      (result.tripped names trips resultGuarded resultClean) _ (fun _ _ => rfl)
      fun kept kept' lost => ?_
    have all := Form.allHoles_of_forall₂ whole (Form.forall₂_of_kept kept)
    refine Form.holes_append all (Form.holes_of_kept whole' kept') ?_
    exact lost.imp (fun lost => (lost.allHoles whole).1) And.left
  | .bool constant, before, guarded, clean => by
    simp only [Ty.normalize, Checked.bind_eq_clean_iff, Form.formed_eq_clean_iff,
      Constant.settle_eq_clean_iff] at clean
    obtain ⟨_, ⟨resolved, value, constantClean, evaluates, rfl⟩, _, rfl⟩ := clean
    have tripped := constant.tripped names trips guarded constantClean
      (Constant.failures_eq_nil_of_asItem evaluates)
    refine (tripped.settle evaluates).map₁ Form.bool (fun _ => rfl) fun lost => ?_
    -- A boolean without its value is a hole.
    rw [lost]
    exact ⟨by simp [Form.holes], by simp [Form.holes]⟩
  | .boolCons constant tail, before, guarded, clean => by
    simp only [Ty.normalize, Checked.bind_eq_clean_iff, Form.formed_eq_clean_iff,
      Constant.settle_eq_clean_iff] at clean
    obtain ⟨_, ⟨resolved, value, constantClean, evaluates, rfl⟩, tail', tailClean, rules, rfl⟩ := clean
    obtain ⟨constantGuarded, tailGuarded⟩ := guarded_append_iff.mp guarded
    have tripped := constant.tripped names trips constantGuarded constantClean
      (Constant.failures_eq_nil_of_asItem evaluates)
    have whole := names.holes_eq_nil tailClean
    refine (tripped.settle evaluates).map₂ (tail.tripped names trips tailGuarded tailClean)
      Form.boolCons (fun _ kept => ?_) fun kept kept' lost => ?_
    · exact Form.formed_eq_clean_iff.mpr ⟨Form.unmet_of_kept kept rules, rfl⟩
    · exact Form.lost_boolCons whole kept kept' lost
  | .list tokens, before, guarded, clean => by
    rw [Ty.normalize] at clean ⊢
    exact Ty.trippedTokens names trips tokens guarded clean
  | .boolList tokens, before, guarded, clean => by
    rw [Ty.normalize] at clean ⊢
    exact Constant.trippedTokens names trips tokens guarded clean
  | .output subject, before, guarded, clean => by
    simp only [Ty.normalize, Checked.bind_eq_clean_iff] at clean
    obtain ⟨subject', subjectClean, projected⟩ := clean
    -- Nothing is projected out of what was lost, and nothing more is found in it.
    have settled := (Ty.wellFormed_normalize not_false names subject subjectClean).settled not_false
    exact (subject.tripped names trips guarded subjectClean).projected settled projected
  | .select subject, before, guarded, clean => by
    simp only [Ty.normalize, Checked.bind_eq_clean_iff] at clean
    obtain ⟨subject', subjectClean, projected⟩ := clean
    have settled := (Ty.wellFormed_normalize not_false names subject subjectClean).settled not_false
    exact (subject.tripped names trips guarded subjectClean).projected settled projected
  | .named other, before, guarded, clean => by
    -- A name that is no other would be used without a guard.
    by_cases marked : other = name
    · simp [Ty.uses, marked, Guarded] at guarded
    · simp only [Ty.normalize, Scope.setting, if_neg marked] at clean ⊢
      rw [clean, Ty.uses, if_neg marked]
      exact .clean _

/-- Some types in which a name marks guarded types are lost to what the guards find in a bad one. -/
theorem Ty.trippedAll (names : (scope.setting name good).WellFormed fun _ => False)
    (trips : bad.Trips scope.limit fault) : ∀ (types : List Ty) {before : List Form},
      Guarded (Ty.allUses name types) →
        Ty.normalizeAll (scope.setting name good) types = .clean before →
          Tripped fault (Ty.allUses name types) before (Form.LostAmong before)
            (Ty.normalizeAll (scope.setting name bad) types)
  | [], before, _, clean => by
    simp only [Ty.normalizeAll, Checked.pure_eq_clean_iff] at clean
    subst clean
    exact .clean _
  | head :: rest, before, guarded, clean => by
    simp only [Ty.normalizeAll, Checked.bind_eq_clean_iff, Checked.pure_eq_clean_iff] at clean
    obtain ⟨head', headClean, rest', restClean, rfl⟩ := clean
    obtain ⟨headGuarded, restGuarded⟩ := guarded_append_iff.mp guarded
    -- The others are known one by one, whether or not something was lost among them.
    refine (head.tripped names trips headGuarded headClean).map₂
      (Ty.trippedAll names trips rest restGuarded restClean) _ (fun _ _ => rfl)
      fun kept kept' lost => ⟨.cons kept (Form.forall₂_of_kept kept'), ?_⟩
    rcases lost with lost | ⟨_, form, member, lost⟩
    · exact ⟨_, List.mem_cons_self .., lost⟩
    · exact ⟨form, List.mem_cons_of_mem _ member, lost⟩

/-- The chain of a type list is lost to what guards find in its elements. -/
theorem Ty.trippedTokens (names : (scope.setting name good).WellFormed fun _ => False)
    (trips : bad.Trips scope.limit fault) : ∀ (tokens : List (Token Ty)) {before : Form},
      Guarded (Ty.tokenUses name tokens) →
        Ty.normalizeTokens (scope.setting name good) tokens = .clean before →
          Tripped fault (Ty.tokenUses name tokens) before Form.Lost
            (Ty.normalizeTokens (scope.setting name bad) tokens)
  | [], before, _, clean => by
    simp only [Ty.normalizeTokens, Checked.pure_eq_clean_iff] at clean
    subst clean
    exact .clean _
  | .comma :: rest, before, guarded, clean => by
    rw [Ty.normalizeTokens] at clean ⊢
    exact Ty.trippedTokens names trips rest guarded clean
  | .element head :: rest, before, guarded, clean => by
    simp only [Ty.normalizeTokens, Checked.bind_eq_clean_iff, Form.formed_eq_clean_iff] at clean
    obtain ⟨head', headClean, tail, tailClean, rules, rfl⟩ := clean
    obtain ⟨headGuarded, restGuarded⟩ := guarded_append_iff.mp guarded
    have whole := names.holes_eq_nil headClean
    -- The rest of the literal is a literal of its own, whose chain is the tail.
    have listClean : (Ty.list rest).normalize (scope.setting name good) = .clean tail := by
      rw [Ty.normalize]
      exact tailClean
    have whole' := names.holes_eq_nil listClean
    refine (head.tripped names trips headGuarded headClean).map₂
      (Ty.trippedTokens names trips rest restGuarded tailClean) _ (fun _ kept => ?_)
      fun kept kept' lost => ?_
    · exact Form.formed_eq_clean_iff.mpr ⟨Form.unmet_of_kept kept rules, rfl⟩
    · exact Form.lost_pair whole whole' kept kept' lost

/-- A constant in which a name marks guarded types is tripped by what the guards find in a bad one. -/
theorem Constant.tripped (names : (scope.setting name good).WellFormed fun _ => False)
    (trips : bad.Trips scope.limit fault) : ∀ (constant : Constant Ty) {before : Constant Form},
      Guarded (constant.uses name) → constant.normalize (scope.setting name good) = .clean before →
        Constant.failures Form.reading before.mentions = [] →
          Constant.Tripped fault (constant.uses name) before
            (constant.normalize (scope.setting name bad))
  | .literal value, before, _, clean, quiet => by
    simp only [Constant.normalize, Checked.pure_eq_clean_iff] at clean
    subst clean
    exact .clean quiet
  | .panic index, before, _, clean, quiet => by
    simp only [Constant.normalize, Checked.pure_eq_clean_iff] at clean
    subst clean
    exact .clean quiet
  | .not operand, before, guarded, clean, quiet => by
    simp only [Constant.normalize, Checked.bind_eq_clean_iff, Checked.pure_eq_clean_iff] at clean
    obtain ⟨operand', operandClean, rfl⟩ := clean
    exact (operand.tripped names trips guarded operandClean quiet).not
  | .connect connective left right, before, guarded, clean, quiet => by
    simp only [Constant.normalize, Checked.bind_eq_clean_iff, Checked.pure_eq_clean_iff] at clean
    obtain ⟨left', leftClean, right', rightClean, rfl⟩ := clean
    obtain ⟨leftGuarded, rightGuarded⟩ := guarded_append_iff.mp guarded
    -- Both sides are evaluated for their mentions, also one that control flow skips.
    obtain ⟨leftQuiet, rightQuiet⟩ := Constant.failures_connect_eq_nil_iff.mp quiet
    exact (left.tripped names trips leftGuarded leftClean leftQuiet).connect
      (right.tripped names trips rightGuarded rightClean rightQuiet) connective
  | .choose condition positive negative, before, guarded, clean, quiet => by
    simp only [Constant.normalize, Checked.bind_eq_clean_iff, Checked.pure_eq_clean_iff] at clean
    obtain ⟨condition', conditionClean, positive', positiveClean, negative', negativeClean, rfl⟩ :=
      clean
    obtain ⟨conditionGuarded, others⟩ := guarded_append_iff.mp guarded
    obtain ⟨positiveGuarded, negativeGuarded⟩ := guarded_append_iff.mp others
    obtain ⟨conditionQuiet, positiveQuiet, negativeQuiet⟩ :=
      Constant.failures_choose_eq_nil_iff.mp quiet
    exact (condition.tripped names trips conditionGuarded conditionClean conditionQuiet).choose
      (positive.tripped names trips positiveGuarded positiveClean positiveQuiet)
      (negative.tripped names trips negativeGuarded negativeClean negativeQuiet)
  | .compare comparison kind left right, before, guarded, clean, _ => by
    simp only [Constant.normalize, Checked.bind_eq_clean_iff, Checked.note_eq_clean_iff,
      Checked.pure_eq_clean_iff] at clean
    obtain ⟨left', leftClean, right', rightClean, _, signs, rfl⟩ := clean
    -- The lists in a comparison are types around guards, and its signs stay what they are.
    obtain ⟨leftGuarded, rightGuarded⟩ := guarded_append_iff.mp guarded
    exact .compare (left.tripped names trips leftGuarded leftClean)
      (right.tripped names trips rightGuarded rightClean) comparison kind signs
  | .mention how subject, before, guarded, clean, quiet => by
    simp only [Constant.normalize, Checked.bind_eq_clean_iff, Checked.note_eq_clean_iff,
      Checked.pure_eq_clean_iff] at clean
    obtain ⟨subject', subjectClean, _, met, rfl⟩ := clean
    -- A mention by the name alone is where a guard stands, and any other is a type around guards.
    by_cases marked : subject.isName name
    · cases Ty.eq_of_isName marked
      rw [Constant.uses, if_pos marked] at guarded ⊢
      have guards : how = .boolGuard ∨ how = .eagerBool := by simpa [Guarded] using guarded
      simp only [Constant.normalize, Ty.normalize, Scope.setting, if_true]
      exact .guard trips guards
    · rw [Constant.uses, if_neg marked] at guarded ⊢
      exact .mention (subject.tripped names trips guarded subjectClean) met quiet

/-- An integer expression keeps its signs, and guards in its lists find what they do. -/
theorem Arith.tripped (names : (scope.setting name good).WellFormed fun _ => False)
    (trips : bad.Trips scope.limit fault) : ∀ (number : Arith Ty) {before : Arith Form},
      Guarded (number.uses name) → number.normalize (scope.setting name good) = .clean before →
        Tripped fault (number.uses name) before (·.hasMinus = before.hasMinus)
          (number.normalize (scope.setting name bad))
  | .literal minus magnitude, before, _, clean => by
    simp only [Arith.normalize, Checked.pure_eq_clean_iff] at clean
    subst clean
    exact .clean _
  | .least, before, _, clean => by
    simp only [Arith.normalize, Checked.pure_eq_clean_iff] at clean
    subst clean
    exact .clean _
  | .greatest, before, _, clean => by
    simp only [Arith.normalize, Checked.pure_eq_clean_iff] at clean
    subst clean
    exact .clean _
  | .negate operand, before, guarded, clean => by
    simp only [Arith.normalize, Checked.bind_eq_clean_iff, Checked.pure_eq_clean_iff] at clean
    obtain ⟨operand', operandClean, rfl⟩ := clean
    exact (operand.tripped names trips guarded operandClean).map₁ Arith.negate (fun _ => rfl) fun _ => rfl
  | .apply operation left right, before, guarded, clean => by
    simp only [Arith.normalize, Checked.bind_eq_clean_iff, Checked.pure_eq_clean_iff] at clean
    obtain ⟨left', leftClean, right', rightClean, rfl⟩ := clean
    obtain ⟨leftGuarded, rightGuarded⟩ := guarded_append_iff.mp guarded
    have tripped := left.tripped names trips leftGuarded leftClean
    have tripped' := right.tripped names trips rightGuarded rightClean
    -- The signs of an operation are those of its operands, and a list that was lost has none.
    refine tripped.map₂ tripped' (Arith.apply operation) (fun _ _ => rfl) fun kept kept' _ => ?_
    rw [Arith.hasMinus, Arith.hasMinus, Arith.hasMinus_of_kept kept, Arith.hasMinus_of_kept kept']
  | .length kind list, before, guarded, clean => by
    simp only [Arith.normalize, Checked.bind_eq_clean_iff, Checked.note_eq_clean_iff,
      Checked.pure_eq_clean_iff] at clean
    obtain ⟨list', listClean, _, rules, rfl⟩ := clean
    refine (list.tripped names trips guarded listClean).map₁ (Arith.length kind) (fun kept => ?_)
      fun _ => rfl
    -- A lost list is not asked whether it is one.
    simpa using Form.unmet_of_kept kept rules

/-- The chain of a boolean list is lost to what guards find in its elements. -/
theorem Constant.trippedTokens (names : (scope.setting name good).WellFormed fun _ => False)
    (trips : bad.Trips scope.limit fault) : ∀ (tokens : List (Token (Constant Ty))) {before : Form},
      Guarded (Constant.tokenUses name tokens) →
        Constant.normalizeTokens (scope.setting name good) tokens = .clean before →
          Tripped fault (Constant.tokenUses name tokens) before Form.Lost
            (Constant.normalizeTokens (scope.setting name bad) tokens)
  | [], before, _, clean => by
    simp only [Constant.normalizeTokens, Checked.pure_eq_clean_iff] at clean
    subst clean
    exact .clean _
  | .comma :: rest, before, guarded, clean => by
    rw [Constant.normalizeTokens] at clean ⊢
    exact Constant.trippedTokens names trips rest guarded clean
  | .element head :: rest, before, guarded, clean => by
    simp only [Constant.normalizeTokens, Checked.bind_eq_clean_iff, Form.formed_eq_clean_iff,
      Constant.settle_eq_clean_iff] at clean
    obtain ⟨_, ⟨resolved, value, headClean, evaluates, rfl⟩, tail, tailClean, rules, rfl⟩ := clean
    obtain ⟨headGuarded, restGuarded⟩ := guarded_append_iff.mp guarded
    have tripped := head.tripped names trips headGuarded headClean
      (Constant.failures_eq_nil_of_asItem evaluates)
    -- Here, too, the rest of the literal is a literal of its own.
    have listClean : (Ty.boolList rest).normalize (scope.setting name good) = .clean tail := by
      rw [Ty.normalize]
      exact tailClean
    have whole := names.holes_eq_nil listClean
    refine (tripped.settle evaluates).map₂
      (Constant.trippedTokens names trips rest restGuarded tailClean) Form.boolCons
      (fun _ kept => ?_) fun kept kept' lost => ?_
    · exact Form.formed_eq_clean_iff.mpr ⟨Form.unmet_of_kept kept rules, rfl⟩
    · exact Form.lost_boolCons whole kept kept' lost

end

end Rejection

end TypeLists
