import TypeLists.Proofs.Constant.Alike
import TypeLists.Proofs.Query

/-! Constants over written types and over normal forms: the types that a constant names are replaced one
by one, and everything else stays in its place. -/

namespace TypeLists

namespace Program

open Expanding (run_map_eq_ok_iff)

variable {program : Program} {resolved : Constant Form}

/-- A written boolean is its own resolution. -/
theorem resolves_literal_iff {value : Bool} :
    program.Resolves (.literal value) resolved ↔
      (∃ scope, program.Opens scope) ∧ resolved = .literal value := by
  constructor
  · intro resolves
    obtain ⟨scope, plain, opens, expands, clean⟩ := resolves
    cases expands
    simp only [Constant.normalize, Checked.pure_eq_clean_iff] at clean
    exact ⟨⟨scope, opens⟩, clean.symm⟩
  · intro parts
    obtain ⟨⟨scope, opens⟩, rfl⟩ := parts
    exact ⟨scope, _, opens, rfl, rfl⟩

/-- A negation resolves as its operand does. -/
theorem resolves_not_iff {operand : Constant Ty} :
    program.Resolves (.not operand) resolved ↔
      ∃ operand', program.Resolves operand operand' ∧ resolved = .not operand' := by
  constructor
  · intro resolves
    obtain ⟨scope, plain, opens, expands, clean⟩ := resolves
    simp only [Constant.expand, run_map_eq_ok_iff] at expands
    obtain ⟨operand', operandExpands, rfl⟩ := expands
    simp only [Constant.normalize, Checked.bind_eq_clean_iff, Checked.pure_eq_clean_iff] at clean
    obtain ⟨operand'', operandClean, rfl⟩ := clean
    exact ⟨_, ⟨scope, _, opens, operandExpands, operandClean⟩, rfl⟩
  · intro parts
    obtain ⟨operand'', ⟨scope, operand', opens, operandExpands, operandClean⟩, rfl⟩ := parts
    refine ⟨scope, .not operand', opens, ?_, ?_⟩
    · simp only [Constant.expand, run_map_eq_ok_iff]
      exact ⟨_, operandExpands, rfl⟩
    · simp only [Constant.normalize, Checked.bind_eq_clean_iff, Checked.pure_eq_clean_iff]
      exact ⟨_, operandClean, rfl⟩

/-- A connective resolves as its sides do. -/
theorem resolves_connect_iff {connective : Connective} {left right : Constant Ty} :
    program.Resolves (.connect connective left right) resolved ↔
      ∃ left' right', program.Resolves left left' ∧ program.Resolves right right' ∧
        resolved = .connect connective left' right' := by
  have first := left.regular_expand.lawful 0
  have second := right.regular_expand.lawful 0
  constructor
  · intro resolves
    obtain ⟨scope, plain, opens, expands, clean⟩ := resolves
    rw [Constant.expand, first.run_map₂_eq_ok_iff second] at expands
    obtain ⟨left', right', leftExpands, rightExpands, rfl⟩ := expands
    simp only [Constant.normalize, Checked.bind_eq_clean_iff, Checked.pure_eq_clean_iff] at clean
    obtain ⟨left'', leftClean, right'', rightClean, rfl⟩ := clean
    exact ⟨_, _, ⟨scope, _, opens, leftExpands, leftClean⟩,
      ⟨scope, _, opens, rightExpands, rightClean⟩, rfl⟩
  · intro parts
    obtain ⟨left'', right'', ⟨scope, left', opens, leftExpands, leftClean⟩,
      ⟨other, right', opens', rightExpands, rightClean⟩, rfl⟩ := parts
    cases opens.unique opens'
    refine ⟨scope, .connect connective left' right', opens, ?_, ?_⟩
    · rw [Constant.expand, first.run_map₂_eq_ok_iff second]
      exact ⟨_, _, leftExpands, rightExpands, rfl⟩
    · simp only [Constant.normalize, Checked.bind_eq_clean_iff, Checked.pure_eq_clean_iff]
      exact ⟨_, leftClean, _, rightClean, rfl⟩

/-- A choice resolves as its condition and its branches do. -/
theorem resolves_choose_iff {condition positive negative : Constant Ty} :
    program.Resolves (.choose condition positive negative) resolved ↔
      ∃ condition' positive' negative', program.Resolves condition condition' ∧
        program.Resolves positive positive' ∧ program.Resolves negative negative' ∧
        resolved = .choose condition' positive' negative' := by
  have first := condition.regular_expand.lawful 0
  have second := positive.regular_expand.lawful 0
  have third := negative.regular_expand.lawful 0
  constructor
  · intro resolves
    obtain ⟨scope, plain, opens, expands, clean⟩ := resolves
    rw [Constant.expand, first.run_map₃_eq_ok_iff second third] at expands
    obtain ⟨condition', positive', negative', conditionExpands, positiveExpands, negativeExpands,
      rfl⟩ := expands
    simp only [Constant.normalize, Checked.bind_eq_clean_iff, Checked.pure_eq_clean_iff] at clean
    obtain ⟨condition'', conditionClean, positive'', positiveClean, negative'', negativeClean,
      rfl⟩ := clean
    exact ⟨_, _, _, ⟨scope, _, opens, conditionExpands, conditionClean⟩,
      ⟨scope, _, opens, positiveExpands, positiveClean⟩,
      ⟨scope, _, opens, negativeExpands, negativeClean⟩, rfl⟩
  · intro parts
    obtain ⟨condition'', positive'', negative'',
      ⟨scope, condition', opens, conditionExpands, conditionClean⟩,
      ⟨other, positive', opens', positiveExpands, positiveClean⟩,
      ⟨another, negative', opens'', negativeExpands, negativeClean⟩, rfl⟩ := parts
    cases opens.unique opens'
    cases opens.unique opens''
    refine ⟨scope, .choose condition' positive' negative', opens, ?_, ?_⟩
    · rw [Constant.expand, first.run_map₃_eq_ok_iff second third]
      exact ⟨_, _, _, conditionExpands, positiveExpands, negativeExpands, rfl⟩
    · simp only [Constant.normalize, Checked.bind_eq_clean_iff, Checked.pure_eq_clean_iff]
      exact ⟨_, conditionClean, _, positiveClean, _, negativeClean, rfl⟩

/-- A deliberate failure is its own resolution. -/
theorem Resolves.eq_panic {index : Nat} (resolves : program.Resolves (.panic index) resolved) :
    resolved = .panic index := by
  obtain ⟨scope, plain, opens, expands, clean⟩ := resolves
  cases expands
  simp only [Constant.normalize, Checked.pure_eq_clean_iff] at clean
  exact clean.symm

/-- A comparison resolves to a comparison of the same kind. -/
theorem Resolves.eq_compare {comparison : Comparison} {kind : IntKind} {left right : Arith Ty}
    (resolves : program.Resolves (.compare comparison kind left right) resolved) :
    ∃ left' right', resolved = .compare comparison kind left' right' := by
  obtain ⟨scope, plain, opens, expands, clean⟩ := resolves
  simp only [Constant.expand] at expands
  rw [(left.regular_expand.lawful 0).run_map₂_eq_ok_iff (right.regular_expand.lawful 0)] at expands
  obtain ⟨left', right', _, _, rfl⟩ := expands
  simp only [Constant.normalize, Checked.bind_eq_clean_iff, Checked.pure_eq_clean_iff] at clean
  obtain ⟨left'', _, right'', _, _, _, rfl⟩ := clean
  exact ⟨left'', right'', rfl⟩

/-- A mention resolves to the same mention of a form. -/
theorem Resolves.eq_mention {how : Mention} {type : Ty}
    (resolves : program.Resolves (.mention how type) resolved) :
    ∃ form, resolved = .mention how form := by
  obtain ⟨scope, plain, opens, expands, clean⟩ := resolves
  simp only [Constant.expand, run_map_eq_ok_iff] at expands
  obtain ⟨type', _, rfl⟩ := expands
  simp only [Constant.normalize, Checked.bind_eq_clean_iff, Checked.pure_eq_clean_iff] at clean
  obtain ⟨form, _, _, _, rfl⟩ := clean
  exact ⟨form, rfl⟩

/-- A constant and its resolution are written alike, and their mentions resolve on their own. -/
theorem Resolves.alike {constant : Constant Ty} (resolves : program.Resolves constant resolved) :
    Constant.Alike
      (fun how type form => program.Resolves (.mention how type) (.mention how form)) constant
      resolved := by
  -- Resolving goes from operand to operand and ends at the mentions.
  induction constant generalizing resolved with
  | literal value =>
    obtain ⟨_, rfl⟩ := resolves_literal_iff.mp resolves
    exact .literal value
  | panic index =>
    rw [resolves.eq_panic]
    exact .panic index
  | compare comparison kind left right =>
    obtain ⟨left', right', rfl⟩ := resolves.eq_compare
    exact .compare comparison kind left left' right right'
  | mention how type =>
    obtain ⟨form, rfl⟩ := resolves.eq_mention
    exact .mention how resolves
  | not operand ih =>
    obtain ⟨operand', inner, rfl⟩ := resolves_not_iff.mp resolves
    exact .not (ih inner)
  | connect connective left right ihLeft ihRight =>
    obtain ⟨left', right', first, second, rfl⟩ := resolves_connect_iff.mp resolves
    exact .connect connective (ihLeft first) (ihRight second)
  | choose condition positive negative ihCondition ihPositive ihNegative =>
    obtain ⟨condition', positive', negative', first, second, third, rfl⟩ :=
      resolves_choose_iff.mp resolves
    exact .choose (ihCondition first) (ihPositive second) (ihNegative third)

end Program

end TypeLists
