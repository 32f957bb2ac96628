import TypeLists.Answer

/-! Attempts to get around the sealing of the list traits, the guards and their nodes. -/

namespace TypeLists

/-- An attempt to add to what is sealed, or to build or open its values. -/
inductive Attempt where
  /-- Implement the trait of type lists. -/
  | implementTypeList
  /-- Implement the trait of boolean lists. -/
  | implementBoolList
  /-- Implement the sealing trait. -/
  | implementSeal
  /-- Name a private module. -/
  | nameModule
  /-- Implement the trait of boolean expressions for a type of one's own. -/
  | implementBoolExpr
  /-- Implement the witness of identity with another type for a type of one's own. -/
  | implementSameAs
  /-- Implement the trait of boolean expressions for a guard. -/
  | implementBoolExprForGuard
  /-- Implement the trait of boolean expressions for the empty list. -/
  | implementBoolExprForNil
  /-- Implement the witness of identity of a type of one's own with itself. -/
  | implementSameAsSelf
  | buildCons
  | buildBool
  | buildNil
  | buildBoolNil
  /-- Read the field of a list node. -/
  | readCons
  deriving DecidableEq

/-- How an attempt ends. -/
def Attempt.answer : Attempt → Answer
  -- The two open traits accept types of one's own, and everything else is refused.
  | implementBoolExpr | implementSameAs => .ok (.flag true)
  | implementTypeList | implementBoolList => .error .illTyped
  | implementSeal | nameModule => .error .privateName
  | implementBoolExprForGuard | implementBoolExprForNil => .error .foreignImplementation
  | implementSameAsSelf => .error .conflictingImplementation
  | buildCons | buildBool | buildNil | buildBoolNil => .error .noConstructor
  | readCons => .error .privateField

end TypeLists
