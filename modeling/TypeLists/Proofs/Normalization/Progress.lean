import TypeLists.Proofs.Normalization.Termination

/-! Reduction gets stuck only in normal forms: a type in which nothing is found is written in normal form or
takes a step, so that every type comes to its normal form, whatever way its reduction goes. -/

namespace TypeLists

namespace Program

variable {program : Program} {scope : Scope}

/-- Some types are all written in normal form, or one of them takes a step. -/
def Proceeds (program : Program) (types : List Ty) (forms : List Form) : Prop :=
  types = Form.allWritten forms ∨
    ∃ before type after reduced, types = before ++ type :: after ∧ program.Step type reduced

/-- A constant is a boolean, or the type that carries it takes a step. -/
theorem Opens.literal_or_evaluates (opens : program.Opens scope) {constant : Constant Ty}
    {value : Option Bool} (settled : Constant.settle (constant.normalize scope) = .clean value) :
    (∃ literal, constant = .literal literal ∧ value = some literal) ∨
      (∀ literal, constant ≠ .literal literal) ∧ ∃ value, program.Evaluates constant value := by
  -- A boolean literal settles on itself, and everything else on the value that it evaluates to.
  by_cases written : ∃ literal, constant = .literal literal
  · obtain ⟨literal, rfl⟩ := written
    exact .inl ⟨literal, rfl, (congrArg Checked.value settled).symm⟩
  · obtain ⟨resolved, result, clean, outcome, rfl⟩ := Constant.settle_eq_clean_iff.mp settled
    exact .inr ⟨fun literal same => written ⟨literal, same⟩,
      result, scope, resolved, opens, clean, outcome⟩

mutual

/-- A type in which nothing is found is written in normal form or takes a step. -/
theorem progress (opens : program.Opens scope) : ∀ (type : Ty) {form : Form}, type.Shaped →
    type.normalize scope = .clean form → type = form.written ∨ ∃ reduced, program.Step type reduced
  -- A part that takes a step takes it in its place, and between normal forms there is a contraction.
  | .atom leaf, form, _, clean => by
    simp only [Ty.normalize, Checked.pure_eq_clean_iff] at clean
    subst clean
    exact .inl rfl
  | .wrap wrapper inner, form, shaped, clean => by
    simp only [Ty.normalize, Checked.bind_eq_clean_iff, Form.wrapped_eq_clean_iff, opens.lifetime_eq] at clean
    obtain ⟨inner', innerClean, _, _, rfl⟩ := clean
    -- A reference may have its lifetime replaced, whatever it refers to.
    by_cases lasting : wrapper.living .static = wrapper
    · rcases progress opens inner (Ty.shaped_wrap_iff.mp shaped) innerClean with same | ⟨reduced, step⟩
      · rw [same, lasting]
        exact .inl rfl
      · exact .inr ⟨_, step.within (.inWrap wrapper)⟩
    · exact .inr ⟨_, .contract (.lifetime lasting inner)⟩
  | .cons head tail, form, shaped, clean => by
    obtain ⟨headShaped, tailShaped⟩ := Ty.shaped_cons_iff.mp shaped
    simp only [Ty.normalize, Checked.bind_eq_clean_iff, Form.formed_eq_clean_iff] at clean
    obtain ⟨head', headClean, tail', tailClean, _, rfl⟩ := clean
    -- The head goes first, so that the tail is only asked for a step when the head takes none.
    rcases progress opens head headShaped headClean with same | ⟨reduced, step⟩
    · rcases progress opens tail tailShaped tailClean with same' | ⟨reduced, step⟩
      · rw [same, same']
        exact .inl rfl
      · exact .inr ⟨_, step.within (.inTail head)⟩
    · exact .inr ⟨_, step.within (.inHead tail)⟩
  | .combine combinator left right, form, shaped, clean => by
    obtain ⟨leftShaped, rightShaped⟩ := Ty.shaped_combine_iff.mp shaped
    simp only [Ty.normalize, Checked.bind_eq_clean_iff, Form.formed_eq_clean_iff] at clean
    obtain ⟨left', leftClean, right', rightClean, _, rfl⟩ := clean
    rcases progress opens left leftShaped leftClean with same | ⟨reduced, step⟩
    · rcases progress opens right rightShaped rightClean with same' | ⟨reduced, step⟩
      · rw [same, same']
        exact .inl rfl
      · exact .inr ⟨_, step.within (.inRight combinator left)⟩
    · exact .inr ⟨_, step.within (.inLeft combinator right)⟩
  | .choice condition positive negative, form, shaped, clean => by
    obtain ⟨conditionShaped, positiveShaped, negativeShaped⟩ := Ty.shaped_choice_iff.mp shaped
    simp only [Ty.normalize, Checked.bind_eq_clean_iff, Form.formed_eq_clean_iff] at clean
    obtain ⟨condition', conditionClean, positive', positiveClean, negative', negativeClean, _,
      rfl⟩ := clean
    rcases progress opens condition conditionShaped conditionClean with same | ⟨reduced, step⟩
    · rcases progress opens positive positiveShaped positiveClean with same' | ⟨reduced, step⟩
      · rcases progress opens negative negativeShaped negativeClean with same'' | ⟨reduced, step⟩
        · rw [same, same', same'']
          exact .inl rfl
        · exact .inr ⟨_, step.within (.inNegative condition positive)⟩
      · exact .inr ⟨_, step.within (.inPositive condition negative)⟩
    · exact .inr ⟨_, step.within (.inCondition positive negative)⟩
  | .tuple members, form, shaped, clean => by
    simp only [Ty.normalize, Checked.bind_eq_clean_iff, Form.formed_eq_clean_iff] at clean
    obtain ⟨members', membersClean, _, rfl⟩ := clean
    rcases progressAll opens members (Ty.shaped_tuple_iff.mp shaped) membersClean with
      same | ⟨before, type, after, reduced, rfl, step⟩
    · rw [same]
      exact .inl rfl
    · exact .inr ⟨_, step.within (.inMember before after)⟩
  | .function arguments result, form, shaped, clean => by
    obtain ⟨argumentsShaped, resultShaped⟩ := Ty.shaped_function_iff.mp shaped
    simp only [Ty.normalize, Checked.bind_eq_clean_iff, Form.formed_eq_clean_iff] at clean
    obtain ⟨arguments', argumentsClean, result', resultClean, _, rfl⟩ := clean
    rcases progressAll opens arguments argumentsShaped argumentsClean with
      same | ⟨before, type, after, reduced, rfl, step⟩
    · rcases progress opens result resultShaped resultClean with same' | ⟨reduced, step⟩
      · rw [same, same']
        exact .inl rfl
      · exact .inr ⟨_, step.within (.inResult arguments)⟩
    · exact .inr ⟨_, step.within (.inArgument before after result)⟩
  | .bool constant, form, _, clean => by
    simp only [Ty.normalize, Checked.bind_eq_clean_iff, Form.formed_eq_clean_iff] at clean
    obtain ⟨value, settled, _, rfl⟩ := clean
    -- What the constant names is not reduced: the constant is evaluated in one step.
    rcases opens.literal_or_evaluates settled with ⟨literal, rfl, rfl⟩ | ⟨computed, value, evaluates⟩
    · exact .inl rfl
    · exact .inr ⟨_, .contract (.bool computed evaluates)⟩
  | .boolCons constant tail, form, shaped, clean => by
    simp only [Ty.normalize, Checked.bind_eq_clean_iff, Form.formed_eq_clean_iff] at clean
    obtain ⟨value, settled, tail', tailClean, _, rfl⟩ := clean
    rcases opens.literal_or_evaluates settled with ⟨literal, rfl, rfl⟩ | ⟨computed, value, evaluates⟩
    · rcases progress opens tail (Ty.shaped_boolCons_iff.mp shaped).2 tailClean with same | ⟨reduced, step⟩
      · rw [same]
        exact .inl rfl
      · exact .inr ⟨_, step.within (.inBoolTail (.literal literal))⟩
    · exact .inr ⟨_, .contract (.boolCons computed evaluates tail)⟩
  | .list tokens, form, shaped, _ => by
    -- A shaped literal always becomes its chain, whether or not its elements can be reduced.
    obtain ⟨types, writes⟩ := (Ty.shaped_list_iff.mp shaped).1
    exact .inr ⟨_, .contract (.list writes)⟩
  | .boolList tokens, form, shaped, _ => by
    obtain ⟨constants, writes⟩ := (Ty.shaped_boolList_iff.mp shaped).1
    exact .inr ⟨_, .contract (.boolList writes)⟩
  | .output subject, form, shaped, clean => by
    obtain ⟨subject', subjectClean, _, gives⟩ := (Ty.normalize_output_iff opens.wellFormed_names).mp clean
    rcases progress opens subject (Ty.shaped_output_iff.mp shaped) subjectClean with same | ⟨reduced, step⟩
    · -- Nothing but a delayed type has an output.
      rw [same]
      unfold Form.output? at gives
      split at gives
      · exact .inr ⟨_, .contract (.output _)⟩
      · cases gives
    · exact .inr ⟨_, step.within .inOutput⟩
  | .select subject, form, shaped, clean => by
    obtain ⟨subject', subjectClean, _, gives⟩ := (Ty.normalize_select_iff opens.wellFormed_names).mp clean
    rcases progress opens subject (Ty.shaped_select_iff.mp shaped) subjectClean with same | ⟨reduced, step⟩
    · -- Only a choice whose condition is known gives something.
      rw [same]
      unfold Form.select? at gives
      split at gives
      · exact .inr ⟨_, .contract (.positive _ _)⟩
      · exact .inr ⟨_, .contract (.negative _ _)⟩
      · cases gives
    · exact .inr ⟨_, step.within .inSelect⟩
  | .named name, form, _, clean => by
    obtain ⟨label, body, rfl, found, _⟩ := opens.exists_body clean
    exact .inr ⟨_, .contract (.name found)⟩

/-- Some types in which nothing is found are written in normal form, or one of them takes a step. -/
theorem progressAll (opens : program.Opens scope) : ∀ (types : List Ty) {forms : List Form},
    (∀ type ∈ types, type.Shaped) → Ty.normalizeAll scope types = .clean forms →
      program.Proceeds types forms
  | [], forms, _, clean => by
    simp only [Ty.normalizeAll, Checked.pure_eq_clean_iff] at clean
    subst clean
    exact .inl rfl
  | head :: rest, forms, shaped, clean => by
    obtain ⟨headShaped, restShaped⟩ := List.forall_mem_cons.mp shaped
    simp only [Ty.normalizeAll, Checked.bind_eq_clean_iff, Checked.pure_eq_clean_iff] at clean
    obtain ⟨head', headClean, rest', restClean, rfl⟩ := clean
    -- The step is that of the first type that takes one, with all normal forms in front of it.
    rcases progress opens head headShaped headClean with same | ⟨reduced, step⟩
    · rcases progressAll opens rest restShaped restClean with
        same' | ⟨before, type, after, reduced, rfl, step⟩
      · rw [same, same']
        exact .inl rfl
      · exact .inr ⟨head :: before, type, after, reduced, rfl, step⟩
    · exact .inr ⟨[], head, rest, reduced, rfl, step⟩

end

/-- A chain of types is shaped if its elements are. -/
theorem shaped_foldr_cons {types : List Ty} (shaped : ∀ type ∈ types, type.Shaped) :
    (types.foldr Ty.cons .nil).Shaped := by
  induction types with
  | nil => exact Ty.shaped_atom
  | cons head rest ih =>
    obtain ⟨headShaped, restShaped⟩ := List.forall_mem_cons.mp shaped
    exact Ty.shaped_cons_iff.mpr ⟨headShaped, ih restShaped⟩

/-- A chain of booleans is shaped if its constants are. -/
theorem shaped_foldr_boolCons {constants : List (Constant Ty)}
    (shaped : ∀ constant ∈ constants, constant.Shaped) :
    (constants.foldr Ty.boolCons .boolNil).Shaped := by
  induction constants with
  | nil => exact Ty.shaped_atom
  | cons head rest ih =>
    obtain ⟨headShaped, restShaped⟩ := List.forall_mem_cons.mp shaped
    exact Ty.shaped_boolCons_iff.mpr ⟨headShaped, ih restShaped⟩

/-- The literals in what a type is replaced by were in the type, or are in an alias. -/
theorem Contracts.shaped (aliases : ∀ definition ∈ program.aliases, definition.2.Shaped)
    {redex contractum : Ty} (contracts : program.Contracts redex contractum) (shaped : redex.Shaped) :
    contractum.Shaped := by
  -- A replacement takes a type apart, and writes no literal that was not there.
  cases contracts with
  | list writes =>
    have elements := (Ty.shaped_list_iff.mp shaped).2
    rw [writes.filterMap] at elements
    exact shaped_foldr_cons elements
  | boolList writes =>
    have elements := (Ty.shaped_boolList_iff.mp shaped).2
    rw [writes.filterMap] at elements
    exact shaped_foldr_boolCons elements
  | @name name _ found =>
    -- The body of an alias comes from the program, all of whose aliases are shaped.
    obtain ⟨before, after, same, _⟩ := List.lookup_eq_some_iff.mp found
    exact aliases (name, contractum) (by simp [same])
  | output inner => exact Ty.shaped_wrap_iff.mp (Ty.shaped_output_iff.mp shaped)
  | positive positive negative =>
    rw [Ty.shaped_select_iff, Ty.shaped_choice_iff] at shaped
    exact Ty.shaped_output_iff.mpr shaped.2.1
  | negative positive negative =>
    rw [Ty.shaped_select_iff, Ty.shaped_choice_iff] at shaped
    exact Ty.shaped_output_iff.mpr shaped.2.2
  | lifetime _ inner => exact Ty.shaped_wrap_iff.mpr (Ty.shaped_wrap_iff.mp shaped)
  | bool _ _ => exact Ty.shaped_bool_iff.mpr Constant.shaped_literal
  | boolCons _ _ tail =>
    exact Ty.shaped_boolCons_iff.mpr ⟨Constant.shaped_literal, (Ty.shaped_boolCons_iff.mp shaped).2⟩

/-- A replacement of one of some shaped types by another one leaves them shaped. -/
theorem shaped_replace {type type' : Ty} {before after : List Ty}
    (shaped : ∀ member ∈ before ++ type :: after, member.Shaped) (shaped' : type'.Shaped) :
    ∀ member ∈ before ++ type' :: after, member.Shaped := by
  rw [List.forall_mem_append, List.forall_mem_cons] at shaped ⊢
  exact ⟨shaped.1, shaped', shaped.2.2⟩

/-- A replacement in a place of a shaped former by a shaped type leaves it shaped. -/
theorem shaped_plug {type type' : Ty} (frame : Ty.Frame) (shaped : (frame.plug type).Shaped)
    (shaped' : type'.Shaped) : (frame.plug type').Shaped := by
  -- Only lists of parts need to be split around the place.
  cases frame with
  | inMember before after =>
    exact Ty.shaped_tuple_iff.mpr (shaped_replace (Ty.shaped_tuple_iff.mp shaped) shaped')
  | inArgument before after result =>
    obtain ⟨arguments, last⟩ := Ty.shaped_function_iff.mp shaped
    exact Ty.shaped_function_iff.mpr ⟨shaped_replace arguments shaped', last⟩
  | _ => simp_all [Ty.Frame.plug]

/-- However a type is reduced, its literals are written by the grammar of literals. -/
theorem Step.shaped (aliases : ∀ definition ∈ program.aliases, definition.2.Shaped) {type type' : Ty}
    (step : program.Step type type') (shaped : type.Shaped) : type'.Shaped := by
  induction step with
  | contract contracts => exact contracts.shaped aliases shaped
  | within frame _ ih =>
    exact shaped_plug frame shaped (ih ((Ty.shaped_iff.mp shaped).2 _ (mem_parts_plug _ frame)))

/-- A shaped type stays shaped however it is reduced. -/
theorem Reduces.shaped (aliases : ∀ definition ∈ program.aliases, definition.2.Shaped) {type type' : Ty}
    (reduces : program.Reduces type type') (shaped : type.Shaped) : type'.Shaped := by
  induction reduces with
  | refl => exact shaped
  | tail _ step ih => exact step.shaped aliases ih

/-- Nothing in which nothing can be reduced takes a step. -/
theorem Step.not_reduced {type type' : Ty} (step : program.Step type type') : ¬ type.Reduced := by
  -- What is replaced is reducible where it stands, and what is reducible inside of a type is so in the type.
  induction step with
  | contract contracts =>
    intro reduced
    have irreducible := reduced _ (.itself _)
    -- Each of the replacements needs something that a reduced type has nowhere.
    cases contracts with
    | lifetime shorter inner => exact shorter irreducible
    | bool computed _ =>
      obtain ⟨value, same⟩ := irreducible
      exact computed value same
    | boolCons computed _ tail =>
      obtain ⟨value, same⟩ := irreducible
      exact computed value same
    | _ => exact irreducible
  | within frame _ ih =>
    exact fun reduced => ih fun part contains =>
      reduced part (.within (mem_parts_plug _ frame) contains)

/-- Every type in which nothing is found is reduced to its normal form. -/
theorem reduces_written (opens : program.Opens scope)
    (aliases : ∀ definition ∈ program.aliases, definition.2.Shaped) {type : Ty} {form : Form}
    (shaped : type.Shaped) (clean : type.normalize scope = .clean form) :
    program.Reduces type form.written := by
  -- The induction is on the steps still to come, which are finitely many on every way.
  have ends := acc_step opens clean
  induction ends with
  | intro type _ ih =>
    rcases progress opens type shaped clean with same | ⟨reduced, step⟩
    · rw [same]
    · exact .head step (ih reduced step (step.shaped aliases shaped) (step.normalize opens clean))

end Program

end TypeLists
