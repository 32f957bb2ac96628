import TypeLists.Form.Chain
import TypeLists.Form.Sized

/-! Boolean expressions: the formula that a form stands for, and the value of a formula. -/

namespace TypeLists

/-- A boolean expression, as far as its value may depend on it. -/
inductive Formula where
  | literal (value : Bool)
  /-- The expression that cannot be evaluated. -/
  | broken (index : Nat)
  /-- A parameter that is known to be a boolean expression. -/
  | given
  /-- A disjunction behind a true literal, whose right operand is skipped. -/
  | skip
  /-- A disjunction behind a false literal. -/
  | orElse (right : Formula)
  | and (left right : Formula)
  | not (operand : Formula)
  /-- The expression that evaluates its operand and is true. -/
  | force (operand : Formula)
  /-- The comparison of two lengths. -/
  | shorter (left right : Nat)
  deriving DecidableEq

/-- The value of a formula. -/
def Formula.value : Formula → Except Failure Bool
  -- A conjunction evaluates its right side even where the left is false.
  | literal value => .ok value
  | broken index => .error (.broken index)
  | given => .ok true
  | skip => .ok true
  | orElse right => right.value
  | and left right => do
    let first ← left.value
    let second ← right.value
    return first && second
  | not operand => do
    let value ← operand.value
    return !value
  | force operand => do
    let _ ← operand.value
    return true
  | shorter left right => .ok (left < right)

namespace Form

/-- The formula that a form stands for, if it is a boolean expression. -/
def formula? : Form → Option Formula
  -- A disjunction needs a literal on its left, and looks to its right only behind a false one.
  | .atom (.broken index) => some (.broken index)
  | .bool (some value) => some (.literal value)
  | .combine .or (.bool (some true)) _ => some .skip
  | .combine .or (.bool (some false)) right => right.formula?.map .orElse
  | .combine .and left right => do return .and (← left.formula?) (← right.formula?)
  | .combine .shorter left right => do
    return .shorter (← left.length? .types) (← right.length? .types)
  | .wrap .not operand => operand.formula?.map .not
  | .wrap .force operand => operand.formula?.map .force
  | .hole cause => if cause.meets .boolExpr then some .given else none
  | _ => none

/-- How deep the proof goes that a form is a boolean expression, or the search for one. -/
def formulaDepth : Form → Nat
  -- The parameter of a literal is a level of its own, and so is the size of a skipped operand.
  | .atom (.broken _) => 2
  | .bool _ => 2
  | .combine .or (.bool (some true)) _ => 2
  | .combine .or (.bool (some false)) right => right.formulaDepth + 1
  | .combine .and left right => max left.formulaDepth right.formulaDepth + 1
  | .combine .shorter left right => max (left.listDepth .types) (right.listDepth .types) + 1
  | .wrap .not operand => operand.formulaDepth + 1
  | .wrap .force operand => operand.formulaDepth + 1
  | _ => 1

/-- The value of a boolean expression. -/
def value (form : Form) : Except Failure Bool :=
  -- The value of any other form is never asked for, and counts as true.
  match form.formula? with
  | some formula => formula.value
  | none => .ok true

/-- The length of a list. -/
def length (kind : ListKind) (form : Form) : Nat :=
  -- The length of any other form is never asked for, and counts as zero.
  (form.length? kind).getD 0

/-- What constants read off normal forms. -/
def reading : Reading Form where
  -- A guard shows only whether the evaluation succeeds.
  outcome
    | .value, form => form.value
    | .boolGuard, form => form.value.map fun _ => true
    | .eagerBool, form => form.value.map fun _ => true
    | .typeGuard, _ => .ok true
    | .eagerType, _ => .ok true
  length := length

/-- The type that a delayed type gives back. -/
def output? : Form → Option Form
  -- Nothing but a delayed type has an output.
  | .wrap .thunk inner => some inner
  | _ => none

/-- The type that a choice gives back. -/
def select? : Form → Option Form
  -- Only the chosen branch has to be a delayed type, and the other one still has to be sized.
  | .choice (.bool (some true)) positive negative =>
    if negative.sized then positive.output? else none
  | .choice (.bool (some false)) positive negative =>
    if positive.sized then negative.output? else none
  | _ => none

end Form

end TypeLists
