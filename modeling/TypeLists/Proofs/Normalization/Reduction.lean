import Mathlib.Logic.Relation
import TypeLists.Proofs.Form.Written
import TypeLists.Proofs.Normalization.Names

/-! Reduction step by step: literals become chains, names become what they stand for, projections become
what they give back, and constants become booleans, wherever they stand and in any order. Reducing changes
neither the normal form of a type nor that it has one, and can always be continued to that form. -/

namespace TypeLists

open Literal (Writes)

/-- A former with a place for one of its parts. -/
inductive Ty.Frame where
  | inWrap (wrapper : Wrapper)
  | inHead (tail : Ty)
  | inTail (head : Ty)
  | inLeft (combinator : Combinator) (right : Ty)
  | inRight (combinator : Combinator) (left : Ty)
  | inCondition (positive negative : Ty)
  | inPositive (condition negative : Ty)
  | inNegative (condition positive : Ty)
  | inMember (before after : List Ty)
  | inArgument (before after : List Ty) (result : Ty)
  | inResult (arguments : List Ty)
  | inBoolTail (constant : Constant Ty)
  | inOutput
  | inSelect

/-- The former with a type in its place. -/
def Ty.Frame.plug (type : Ty) : Ty.Frame → Ty
  -- Constants and literals have no place, since they are replaced as a whole.
  | inWrap wrapper => .wrap wrapper type
  | inHead tail => .cons type tail
  | inTail head => .cons head type
  | inLeft combinator right => .combine combinator type right
  | inRight combinator left => .combine combinator left type
  | inCondition positive negative => .choice type positive negative
  | inPositive condition negative => .choice condition type negative
  | inNegative condition positive => .choice condition positive type
  | inMember before after => .tuple (before ++ type :: after)
  | inArgument before after result => .function (before ++ type :: after) result
  | inResult arguments => .function arguments type
  | inBoolTail constant => .boolCons constant type
  | inOutput => .output type
  | inSelect => .select type

namespace Program

/-- The types that the constant names are well-formed, and its evaluation succeeds with the value. -/
def Evaluates (program : Program) (constant : Constant Ty) (value : Bool) : Prop :=
  ∃ scope resolved, program.Opens scope ∧ constant.normalize scope = .clean resolved ∧
    resolved.asItem Form.reading = .ok value

end Program

namespace Wrapper

@[simp] theorem living_living (wrapper : Wrapper) (lifetime : Lifetime) :
    (wrapper.living lifetime).living lifetime = wrapper.living lifetime := by
  cases wrapper <;> rfl

@[simp] theorem borrows_living (wrapper : Wrapper) (lifetime : Lifetime) :
    (wrapper.living lifetime).borrows = wrapper.borrows := by
  cases wrapper <;> rfl

end Wrapper

namespace Program

/-- What stands on the left is replaced by what stands on the right. -/
inductive Contracts (program : Program) : Ty → Ty → Prop where
  /-- A literal of types becomes a chain of its elements. -/
  | list {tokens : List (Token Ty)} {types : List Ty} (writes : Writes tokens types) :
    Contracts program (.list tokens) (types.foldr .cons .nil)
  /-- A literal of booleans becomes a chain of its elements. -/
  | boolList {tokens : List (Token (Constant Ty))} {constants : List (Constant Ty)}
    (writes : Writes tokens constants) :
    Contracts program (.boolList tokens) (constants.foldr .boolCons .boolNil)
  /-- An alias becomes its body. -/
  | name {name : String} {body : Ty} (found : program.aliases.lookup name = some body) :
    Contracts program (.named (.alias name)) body
  /-- The output of a delayed type is the type that is delayed. -/
  | output (inner : Ty) : Contracts program (.output (.wrap .thunk inner)) inner
  /-- A choice behind a true condition gives the output of its first branch. -/
  | positive (positive negative : Ty) :
    Contracts program (.select (.choice (.bool (.literal true)) positive negative)) (.output positive)
  /-- A choice behind a false condition gives the output of its second branch. -/
  | negative (positive negative : Ty) :
    Contracts program (.select (.choice (.bool (.literal false)) positive negative))
      (.output negative)
  /-- A reference lives as long as the program. -/
  | lifetime {wrapper : Wrapper} (shorter : wrapper.living .static ≠ wrapper) (inner : Ty) :
    Contracts program (.wrap wrapper inner) (.wrap (wrapper.living .static) inner)
  /-- A constant becomes the boolean that it evaluates to. -/
  | bool {constant : Constant Ty} {value : Bool} (computed : ∀ literal, constant ≠ .literal literal)
    (evaluates : program.Evaluates constant value) :
    Contracts program (.bool constant) (.bool (.literal value))
  /-- So does the constant of a node. -/
  | boolCons {constant : Constant Ty} {value : Bool} (computed : ∀ literal, constant ≠ .literal literal)
    (evaluates : program.Evaluates constant value) (tail : Ty) :
    Contracts program (.boolCons constant tail) (.boolCons (.literal value) tail)

/-- One part of a type is replaced. -/
inductive Step (program : Program) : Ty → Ty → Prop where
  | contract {redex contractum : Ty} (contracts : program.Contracts redex contractum) :
    Step program redex contractum
  | within {type type' : Ty} (frame : Ty.Frame) (step : Step program type type') :
    Step program (frame.plug type) (frame.plug type')

/-- Parts of a type are replaced any number of times. -/
abbrev Reduces (program : Program) : Ty → Ty → Prop :=
  Relation.ReflTransGen program.Step

end Program

section Preservation

variable {program : Program} {scope : Scope}

/-- A replacement of one of some types keeps the normal forms of all, if it keeps that of the one. -/
theorem Ty.normalizeAll_replace {type type' : Ty} {after : List Ty}
    (kept : ∀ {form}, type.normalize scope = .clean form → type'.normalize scope = .clean form)
    (before : List Ty) {forms : List Form}
    (clean : Ty.normalizeAll scope (before ++ type :: after) = .clean forms) :
    Ty.normalizeAll scope (before ++ type' :: after) = .clean forms := by
  -- The induction is on the types in front, which are normalized first and stay as they are.
  induction before generalizing forms with
  | nil =>
    simp only [List.nil_append, Ty.normalizeAll, Checked.bind_eq_clean_iff] at clean ⊢
    obtain ⟨form, typeClean, rest⟩ := clean
    exact ⟨form, kept typeClean, rest⟩
  | cons first others ih =>
    simp only [List.cons_append, Ty.normalizeAll, Checked.bind_eq_clean_iff] at clean ⊢
    obtain ⟨form, firstClean, forms', restClean, same⟩ := clean
    exact ⟨form, firstClean, forms', ih restClean, same⟩

/-- A replacement in a place of a former keeps the normal form, if it keeps that of what is replaced. -/
theorem Ty.Frame.normalize_plug {type type' : Ty}
    (kept : ∀ {form}, type.normalize scope = .clean form → type'.normalize scope = .clean form)
    (frame : Ty.Frame) {form : Form} (clean : (frame.plug type).normalize scope = .clean form) :
    (frame.plug type').normalize scope = .clean form := by
  -- A former reads its parts through their normal forms alone.
  cases frame with
  | inWrap wrapper =>
    simp only [plug, Ty.normalize, Checked.bind_eq_clean_iff] at clean ⊢
    obtain ⟨inner, innerClean, rules⟩ := clean
    exact ⟨inner, kept innerClean, rules⟩
  | inHead tail =>
    simp only [plug, Ty.normalize, Checked.bind_eq_clean_iff] at clean ⊢
    obtain ⟨head, headClean, rest⟩ := clean
    exact ⟨head, kept headClean, rest⟩
  | inTail head =>
    simp only [plug, Ty.normalize, Checked.bind_eq_clean_iff] at clean ⊢
    obtain ⟨head', headClean, tail, tailClean, rules⟩ := clean
    exact ⟨head', headClean, tail, kept tailClean, rules⟩
  | inLeft combinator right =>
    simp only [plug, Ty.normalize, Checked.bind_eq_clean_iff] at clean ⊢
    obtain ⟨left, leftClean, rest⟩ := clean
    exact ⟨left, kept leftClean, rest⟩
  | inRight combinator left =>
    simp only [plug, Ty.normalize, Checked.bind_eq_clean_iff] at clean ⊢
    obtain ⟨left', leftClean, right, rightClean, rules⟩ := clean
    exact ⟨left', leftClean, right, kept rightClean, rules⟩
  | inCondition positive negative =>
    simp only [plug, Ty.normalize, Checked.bind_eq_clean_iff] at clean ⊢
    obtain ⟨condition, conditionClean, rest⟩ := clean
    exact ⟨condition, kept conditionClean, rest⟩
  | inPositive condition negative =>
    simp only [plug, Ty.normalize, Checked.bind_eq_clean_iff] at clean ⊢
    obtain ⟨condition', conditionClean, positive, positiveClean, rest⟩ := clean
    exact ⟨condition', conditionClean, positive, kept positiveClean, rest⟩
  | inNegative condition positive =>
    simp only [plug, Ty.normalize, Checked.bind_eq_clean_iff] at clean ⊢
    obtain ⟨condition', conditionClean, positive', positiveClean, negative, negativeClean, rules⟩ :=
      clean
    exact ⟨condition', conditionClean, positive', positiveClean, negative, kept negativeClean, rules⟩
  | inMember before after =>
    simp only [plug, Ty.normalize, Checked.bind_eq_clean_iff] at clean ⊢
    obtain ⟨members, membersClean, rules⟩ := clean
    exact ⟨members, Ty.normalizeAll_replace kept before membersClean, rules⟩
  | inArgument before after result =>
    simp only [plug, Ty.normalize, Checked.bind_eq_clean_iff] at clean ⊢
    obtain ⟨arguments, argumentsClean, rest⟩ := clean
    exact ⟨arguments, Ty.normalizeAll_replace kept before argumentsClean, rest⟩
  | inResult arguments =>
    simp only [plug, Ty.normalize, Checked.bind_eq_clean_iff] at clean ⊢
    obtain ⟨arguments', argumentsClean, result, resultClean, rules⟩ := clean
    exact ⟨arguments', argumentsClean, result, kept resultClean, rules⟩
  | inBoolTail constant =>
    simp only [plug, Ty.normalize, Checked.bind_eq_clean_iff] at clean ⊢
    obtain ⟨value, settled, tail, tailClean, rules⟩ := clean
    exact ⟨value, settled, tail, kept tailClean, rules⟩
  | inOutput =>
    simp only [plug, Ty.normalize, Checked.bind_eq_clean_iff] at clean ⊢
    obtain ⟨subject, subjectClean, projected⟩ := clean
    exact ⟨subject, kept subjectClean, projected⟩
  | inSelect =>
    simp only [plug, Ty.normalize, Checked.bind_eq_clean_iff] at clean ⊢
    obtain ⟨subject, subjectClean, projected⟩ := clean
    exact ⟨subject, kept subjectClean, projected⟩

/-- The chain of the elements of a type list is normalized as the list is. -/
theorem Ty.normalize_foldr_cons (tokens : List (Token Ty)) :
    ((tokens.filterMap Token.value?).foldr Ty.cons .nil).normalize scope =
      Ty.normalizeTokens scope tokens := by
  symm
  refine Token.eq_foldr_of_skips (Ty.normalizeTokens scope) (Ty.normalize scope) rfl (fun _ => rfl)
    (fun _ _ _ same => ?_) tokens
  simp only [Ty.normalizeTokens, Ty.normalize, same]

/-- The chain of the elements of a boolean list is normalized as the list is. -/
theorem Constant.normalize_foldr_boolCons (tokens : List (Token (Constant Ty))) :
    ((tokens.filterMap Token.value?).foldr Ty.boolCons .boolNil).normalize scope =
      Constant.normalizeTokens scope tokens := by
  symm
  refine Token.eq_foldr_of_skips (Constant.normalizeTokens scope) (Ty.normalize scope) rfl (fun _ => rfl)
    (fun _ _ _ same => ?_) tokens
  simp only [Constant.normalizeTokens, Ty.normalize, same]

/-- An output is normalized to what a delayed type gives back. -/
theorem Ty.normalize_output_iff (names : scope.WellFormed fun _ => False) {subject : Ty}
    {form : Form} :
    (Ty.output subject).normalize scope = .clean form ↔
      ∃ subject', subject.normalize scope = .clean subject' ∧ 1 ≤ scope.limit ∧
        subject'.output? = some form := by
  simp only [Ty.normalize, Checked.bind_eq_clean_iff]
  refine exists_congr fun subject' => and_congr_right fun clean => ?_
  -- Nothing in a program without parameters is unknown, so that the output is there or a rule is broken.
  have settled := (Ty.wellFormed_normalize not_false names subject clean).settled not_false
  rw [Form.projected_eq_clean_iff settled, Form.proofDepth, Form.implements]
  cases subject'.output? <;> simp

/-- The projection out of a choice is normalized to what the choice gives back. -/
theorem Ty.normalize_select_iff (names : scope.WellFormed fun _ => False) {subject : Ty}
    {form : Form} :
    (Ty.select subject).normalize scope = .clean form ↔
      ∃ subject', subject.normalize scope = .clean subject' ∧ 2 ≤ scope.limit ∧
        subject'.select? = some form := by
  simp only [Ty.normalize, Checked.bind_eq_clean_iff]
  refine exists_congr fun subject' => and_congr_right fun clean => ?_
  -- Choosing and taking the output are two levels of one search, and both have to be allowed.
  have settled := (Ty.wellFormed_normalize not_false names subject clean).settled not_false
  rw [Form.projected_eq_clean_iff settled, Form.proofDepth, Form.implements]
  cases subject'.select? <;> simp

/-- A choice gives back what its chosen branch does, if the other one is sized. -/
theorem Form.select?_choice_iff {value : Bool} {positive negative form : Form} :
    (Form.choice (.bool (some value)) positive negative).select? = some form ↔
      (bif value then negative else positive).sized ∧
        (bif value then positive else negative).output? = some form := by
  cases value <;> simp [select?]

namespace Program

/-- What a constant evaluates to is the value that it settles on. -/
theorem Evaluates.settle (opens : program.Opens scope) {constant : Constant Ty} {value : Bool}
    (evaluates : program.Evaluates constant value) :
    Constant.settle (constant.normalize scope) = .clean (some value) := by
  obtain ⟨other, resolved, opens', clean, outcome⟩ := evaluates
  cases opens.unique opens'
  exact Constant.settle_eq_clean_iff.mpr ⟨resolved, value, clean, outcome, rfl⟩

/-- What a part is replaced by has the normal form of the part. -/
theorem Contracts.normalize (opens : program.Opens scope) {redex contractum : Ty}
    (contracts : program.Contracts redex contractum) {form : Form}
    (clean : redex.normalize scope = .clean form) : contractum.normalize scope = .clean form := by
  -- Every replacement does what normalizing does at the same place, but in the text of the type.
  have names := opens.wellFormed_names
  cases contracts with
  | list writes =>
    rw [← writes.filterMap, Ty.normalize_foldr_cons]
    rwa [Ty.normalize] at clean
  | boolList writes =>
    rw [← writes.filterMap, Constant.normalize_foldr_boolCons]
    rwa [Ty.normalize] at clean
  | name found =>
    -- An alias stands for the normal form of its body, and for no findings, in the whole program.
    obtain ⟨label, body, same, found', bodyClean⟩ := opens.exists_body clean
    cases same
    cases found.symm.trans found'
    exact bodyClean
  | output inner =>
    obtain ⟨subject, subjectClean, _, gives⟩ := (Ty.normalize_output_iff names).mp clean
    simp only [Ty.normalize, Checked.bind_eq_clean_iff, Form.wrapped_eq_clean_iff] at subjectClean
    obtain ⟨inner', innerClean, _, _, rfl⟩ := subjectClean
    cases gives
    exact innerClean
  | positive positive negative =>
    obtain ⟨subject, subjectClean, levels, gives⟩ := (Ty.normalize_select_iff names).mp clean
    simp only [Ty.normalize, Checked.bind_eq_clean_iff, Form.formed_eq_clean_iff] at subjectClean
    obtain ⟨_, ⟨_, settled, _, rfl⟩, positive', positiveClean, negative', _, _, rfl⟩ := subjectClean
    cases settled
    -- The branch that is left out was sized, and plays no part from here on.
    exact (Ty.normalize_output_iff names).mpr ⟨positive', positiveClean, by omega,
      (Form.select?_choice_iff.mp gives).2⟩
  | negative positive negative =>
    obtain ⟨subject, subjectClean, levels, gives⟩ := (Ty.normalize_select_iff names).mp clean
    simp only [Ty.normalize, Checked.bind_eq_clean_iff, Form.formed_eq_clean_iff] at subjectClean
    obtain ⟨_, ⟨_, settled, _, rfl⟩, positive', _, negative', negativeClean, _, rfl⟩ := subjectClean
    cases settled
    exact (Ty.normalize_output_iff names).mpr ⟨negative', negativeClean, by omega,
      (Form.select?_choice_iff.mp gives).2⟩
  | @lifetime wrapper _ inner =>
    simp only [Ty.normalize, Checked.bind_eq_clean_iff, Form.wrapped_eq_clean_iff] at clean ⊢
    rw [opens.lifetime_eq] at clean ⊢
    obtain ⟨inner', innerClean, closed, rules, rfl⟩ := clean
    -- A reference that lives as long as the program is not changed by living there.
    rw [Wrapper.living_living]
    exact ⟨inner', innerClean, fun borrows => closed (by rwa [Wrapper.borrows_living] at borrows), rules,
      rfl⟩
  | bool _ evaluates =>
    rw [Ty.normalize, evaluates.settle opens] at clean
    exact clean
  | boolCons _ evaluates tail =>
    rw [Ty.normalize, evaluates.settle opens] at clean
    exact clean

/-- A type keeps its normal form in every step. -/
theorem Step.normalize (opens : program.Opens scope) {type type' : Ty}
    (step : program.Step type type') {form : Form} (clean : type.normalize scope = .clean form) :
    type'.normalize scope = .clean form := by
  -- The induction is on the way from the whole type down to what is replaced.
  induction step generalizing form with
  | contract contracts => exact contracts.normalize opens clean
  | within frame _ ih => exact frame.normalize_plug ih clean

/-- A type keeps its normal form however it is reduced. -/
theorem Reduces.normalize (opens : program.Opens scope) {type type' : Ty}
    (reduces : program.Reduces type type') {form : Form}
    (clean : type.normalize scope = .clean form) : type'.normalize scope = .clean form := by
  induction reduces with
  | refl => exact clean
  | tail _ step ih => exact step.normalize opens ih

end Program

end Preservation

end TypeLists
