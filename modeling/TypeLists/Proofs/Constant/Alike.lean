import Mathlib.Data.List.Forall2
import TypeLists.Proofs.Constant.Order

/-! Constants that differ only in the types that they name: their mentions stand in the same places and
are evaluated in the same order. -/

namespace TypeLists

namespace Constant

/-- Two constants are written alike, with the same mentions of related types. -/
inductive Alike {type type' : Type} (related : Mention → type → type' → Prop) :
    Constant type → Constant type' → Prop where
  | literal (value : Bool) : Alike related (.literal value) (.literal value)
  | not {operand : Constant type} {operand' : Constant type'}
    (inner : Alike related operand operand') : Alike related (.not operand) (.not operand')
  | connect (connective : Connective) {left right : Constant type} {left' right' : Constant type'}
    (first : Alike related left left') (second : Alike related right right') :
    Alike related (.connect connective left right) (.connect connective left' right')
  | choose {condition positive negative : Constant type}
    {condition' positive' negative' : Constant type'}
    (first : Alike related condition condition') (second : Alike related positive positive')
    (third : Alike related negative negative') :
    Alike related (.choose condition positive negative) (.choose condition' positive' negative')
  /-- Lengths never fail, so that the lists in them need not be related. -/
  | compare (comparison : Comparison) (kind : IntKind) (left : Arith type) (left' : Arith type')
    (right : Arith type) (right' : Arith type') :
    Alike related (.compare comparison kind left right) (.compare comparison kind left' right')
  | panic (index : Nat) : Alike related (.panic index) (.panic index)
  | mention (how : Mention) {subject : type} {subject' : type'} (named : related how subject subject') :
    Alike related (.mention how subject) (.mention how subject')

namespace Alike

variable {type type' : Type} {related : Mention → type → type' → Prop} {constant : Constant type}
  {constant' : Constant type'}

theorem flip (alike : Alike related constant constant') :
    Alike (fun how subject' subject => related how subject subject') constant' constant := by
  -- Nothing in the rules tells the two sides apart.
  induction alike with
  | literal value => exact .literal value
  | not _ inner => exact .not inner
  | connect connective _ _ first second => exact .connect connective first second
  | choose _ _ _ first second third => exact .choose first second third
  | compare comparison kind left left' right right' =>
    exact .compare comparison kind left' left right' right
  | panic index => exact .panic index
  | mention how named => exact .mention how named

/-- Constants that are alike have as many operands, which are alike in turn. -/
theorem operands (alike : Alike related constant constant') :
    List.Forall₂ (Alike related) constant.operands constant'.operands := by
  cases alike with
  | not inner => exact .cons inner .nil
  | connect _ first second => exact .cons first (.cons second .nil)
  | choose first second third => exact .cons first (.cons second (.cons third .nil))
  | _ => exact .nil

/-- Every operand has one that is alike in the same position. -/
theorem operand (alike : Alike related constant constant') {number : Nat} {operand : Constant type}
    (member : constant.operands[number]? = some operand) :
    ∃ operand', constant'.operands[number]? = some operand' ∧ Alike related operand operand' := by
  -- The operands correspond by their numbers.
  obtain ⟨within, rfl⟩ := List.getElem?_eq_some_iff.mp member
  have within' : number < constant'.operands.length := alike.operands.length_eq ▸ within
  exact ⟨_, List.getElem?_eq_getElem within', alike.operands.get within within'⟩

theorem isMention_eq (alike : Alike related constant constant') :
    constant.isMention = constant'.isMention := by
  cases alike <;> rfl

theorem leansPositive_eq (alike : Alike related constant constant') :
    constant.leansPositive = constant'.leansPositive := by
  induction alike with
  | not _ inner => rw [leansPositive, leansPositive, inner]
  | connect connective _ _ first second =>
    cases connective with
    | and => rw [leansPositive, leansPositive, first, second]
    | or => rw [leansPositive, leansPositive, first, second]
    | xor => rfl
    | band => rfl
  | _ => rfl

/-- The same operands change places. -/
theorem turns_eq (alike : Alike related constant constant') : constant.turns = constant'.turns := by
  funext number number'
  cases alike with
  | connect connective first second =>
    cases connective with
    | and => rfl
    | or => rfl
    | xor => rw [turns, turns, first.isMention_eq, second.isMention_eq]
    | band => rw [turns, turns, first.isMention_eq, second.isMention_eq]
  | choose first _ _ => rw [turns, turns, first.leansPositive_eq]
  | _ => rfl

/-- Mentions stand in the same places, and name related types there. -/
theorem occurs (alike : Alike related constant constant') {place : List Nat} {how : Mention}
    {subject : type} (occurs : constant.Occurs place how subject) :
    ∃ subject', constant'.Occurs place how subject' ∧ related how subject subject' := by
  -- The place leads to operands that are alike, down to the mention.
  induction occurs generalizing constant' with
  | here how subject =>
    cases alike with
    | mention _ named => exact ⟨_, .here how _, named⟩
  | within member _ ih =>
    obtain ⟨operand', member', alike'⟩ := alike.operand member
    obtain ⟨subject', occurs', named⟩ := ih alike'
    exact ⟨subject', .within member' occurs', named⟩

/-- The places are evaluated in the same order. -/
theorem before (alike : Alike related constant constant') {place place' : List Nat}
    (before : constant.Before place place') : constant'.Before place place' := by
  -- The same operands change places on the way to either place.
  induction before generalizing constant' with
  | apart sooner rest rest' =>
    unfold Sooner at sooner
    rw [alike.turns_eq] at sooner
    exact .apart sooner rest rest'
  | together member _ ih =>
    obtain ⟨operand', member', alike'⟩ := alike.operand member
    exact .together member' (ih alike')

end Alike

end Constant

end TypeLists
