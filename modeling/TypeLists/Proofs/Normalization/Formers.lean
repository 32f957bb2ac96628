import TypeLists.Proofs.Normalization.Reduction

/-! Normal forms former by former: what has to be known of the parts of a type with a normal form. -/

namespace TypeLists

namespace Program

variable {program : Program} {form : Form}

/-- The operands of a combinator have normal forms that are sized. -/
theorem gives_combine_iff {combinator : Combinator} {left right : Ty} :
    program.Gives (.combine combinator left right) form ↔
      ∃ left' right', program.Gives left left' ∧ program.Gives right right' ∧
        left'.unmet program.limit .sized = [] ∧ right'.unmet program.limit .sized = [] ∧
        form = .combine combinator left' right' := by
  have first := left.regular_expand.lawful 0
  have second := right.regular_expand.lawful 0
  -- Each operand expands in the combinator as it does alone, since nothing goes wrong before it.
  constructor
  · intro gives
    obtain ⟨scope, plain, opens, expands, clean⟩ := gives
    rw [Ty.expand, first.run_map₂_eq_ok_iff second] at expands
    obtain ⟨left', right', leftExpands, rightExpands, rfl⟩ := expands
    simp only [Ty.normalize, Checked.bind_eq_clean_iff, Form.formed_eq_clean_iff, Form.malformed,
      List.append_eq_nil_iff, opens.limit_eq] at clean
    obtain ⟨left'', leftClean, right'', rightClean, ⟨sized, sized'⟩, rfl⟩ := clean
    exact ⟨_, _, ⟨scope, _, opens, leftExpands, leftClean⟩,
      ⟨scope, _, opens, rightExpands, rightClean⟩, sized, sized', rfl⟩
  · intro parts
    obtain ⟨left'', right'', ⟨scope, left', opens, leftExpands, leftClean⟩,
      ⟨other, right', opens', rightExpands, rightClean⟩, sized, sized', rfl⟩ := parts
    -- Both operands were normalized in the one scope that the program opens.
    cases opens.unique opens'
    refine ⟨scope, .combine combinator left' right', opens, ?_, ?_⟩
    · rw [Ty.expand, first.run_map₂_eq_ok_iff second]
      exact ⟨_, _, leftExpands, rightExpands, rfl⟩
    · simp only [Ty.normalize, Checked.bind_eq_clean_iff, Form.formed_eq_clean_iff, Form.malformed,
        List.append_eq_nil_iff, opens.limit_eq]
      exact ⟨_, leftClean, _, rightClean, ⟨sized, sized'⟩, rfl⟩

/-- The condition and the branches of a choice have normal forms that are sized. -/
theorem gives_choice_iff {condition positive negative : Ty} :
    program.Gives (.choice condition positive negative) form ↔
      ∃ condition' positive' negative', program.Gives condition condition' ∧
        program.Gives positive positive' ∧ program.Gives negative negative' ∧
        (condition'.unmet program.limit .sized = [] ∧ positive'.unmet program.limit .sized = [] ∧
          negative'.unmet program.limit .sized = []) ∧
        form = .choice condition' positive' negative' := by
  have first := condition.regular_expand.lawful 0
  have second := positive.regular_expand.lawful 0
  have third := negative.regular_expand.lawful 0
  -- The three parts expand one after another, and each as it does alone.
  constructor
  · intro gives
    obtain ⟨scope, plain, opens, expands, clean⟩ := gives
    rw [Ty.expand, first.run_map₃_eq_ok_iff second third] at expands
    obtain ⟨condition', positive', negative', conditionExpands, positiveExpands, negativeExpands,
      rfl⟩ := expands
    simp only [Ty.normalize, Checked.bind_eq_clean_iff, Form.formed_eq_clean_iff, Form.malformed,
      List.append_eq_nil_iff, and_assoc, opens.limit_eq] at clean
    obtain ⟨condition'', conditionClean, positive'', positiveClean, negative'', negativeClean,
      sized, sized', sized'', rfl⟩ := clean
    exact ⟨_, _, _, ⟨scope, _, opens, conditionExpands, conditionClean⟩,
      ⟨scope, _, opens, positiveExpands, positiveClean⟩,
      ⟨scope, _, opens, negativeExpands, negativeClean⟩, ⟨sized, sized', sized''⟩, rfl⟩
  · intro parts
    obtain ⟨condition'', positive'', negative'',
      ⟨scope, condition', opens, conditionExpands, conditionClean⟩,
      ⟨other, positive', opens', positiveExpands, positiveClean⟩,
      ⟨another, negative', opens'', negativeExpands, negativeClean⟩, sized, rfl⟩ := parts
    -- All three were normalized in the one scope that the program opens.
    cases opens.unique opens'
    cases opens.unique opens''
    refine ⟨scope, .choice condition' positive' negative', opens, ?_, ?_⟩
    · rw [Ty.expand, first.run_map₃_eq_ok_iff second third]
      exact ⟨_, _, _, conditionExpands, positiveExpands, negativeExpands, rfl⟩
    · simp only [Ty.normalize, Checked.bind_eq_clean_iff, Form.formed_eq_clean_iff, Form.malformed,
        List.append_eq_nil_iff, and_assoc, opens.limit_eq]
      exact ⟨_, conditionClean, _, positiveClean, _, negativeClean, sized.1, sized.2.1, sized.2.2, rfl⟩

/-- The projection out of a choice gives what the choice gives back. -/
theorem gives_select_iff {subject : Ty} :
    program.Gives (.select subject) form ↔
      2 ≤ program.limit ∧ ∃ subject', program.Gives subject subject' ∧
        subject'.select? = some form := by
  -- A projection has no literals of its own, so that only the normalization is left to compare.
  constructor
  · intro gives
    obtain ⟨scope, plain, opens, expands, clean⟩ := gives
    obtain ⟨plain', made, rfl⟩ := Expanding.run_map_eq_ok_iff.mp expands
    obtain ⟨subject', subjectClean, deep, selects⟩ :=
      (Ty.normalize_select_iff opens.wellFormed_names).mp clean
    exact ⟨opens.limit_eq ▸ deep, subject', ⟨scope, plain', opens, made, subjectClean⟩, selects⟩
  · intro parts
    obtain ⟨deep, subject', ⟨scope, plain, opens, expands, clean⟩, selects⟩ := parts
    refine ⟨scope, .select plain, opens, Expanding.run_map_eq_ok_iff.mpr ⟨plain, expands, rfl⟩, ?_⟩
    exact (Ty.normalize_select_iff opens.wellFormed_names).mpr
      ⟨subject', clean, opens.limit_eq ▸ deep, selects⟩

/-- The output of a delayed type is what it delays. -/
theorem Gives.output {subject : Ty} {inner : Form} (gives : program.Gives subject (.wrap .thunk inner))
    (deep : 1 ≤ program.limit) : program.Gives (.output subject) inner := by
  obtain ⟨scope, plain, opens, expands, clean⟩ := gives
  refine ⟨scope, .output plain, opens, Expanding.run_map_eq_ok_iff.mpr ⟨plain, expands, rfl⟩, ?_⟩
  exact (Ty.normalize_output_iff opens.wellFormed_names).mpr
    ⟨_, clean, opens.limit_eq ▸ deep, rfl⟩

end Program

end TypeLists
