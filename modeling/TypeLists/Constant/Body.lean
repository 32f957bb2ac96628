import TypeLists.Constant.Item

/-! Function bodies: a preview follows the branches that known values leave open, and a body without
failures on the way has all its mentions evaluated before it runs. -/

namespace TypeLists

/-- What is known of the types that a function body names before the function is called. -/
structure Outlook (type : Type) where
  /-- The result of evaluating a mention, if no call is needed for it. -/
  outcome? : Mention → type → Option (Except Failure Bool)
  /-- The length of a list, if no call is needed for it. -/
  length? : ListKind → type → Option Nat

/-- The outlook on types of which everything is known. -/
def Reading.outlook {type : Type} (reading : Reading type) : Outlook type where
  outcome? how subject := some (reading.outcome how subject)
  length? kind list := some (reading.length kind list)

/-- The value of an integer expression, if it is known and within its width. -/
def Arith.foresee {type : Type} (outlook : Outlook type) (kind : IntKind) : Arith type → Option Int
  -- A failing operation is left to the run.
  | .literal minus magnitude => some (kind.wrap (signed minus magnitude))
  | .least => some kind.least
  | .greatest => some kind.greatest
  | .negate operand => do
    let number ← operand.foresee outlook kind
    (kind.checked (-number)).toOption
  | .apply operation left right => do
    let first ← left.foresee outlook kind
    let second ← right.foresee outlook kind
    (kind.apply operation first second).toOption
  | .length listKind list => (outlook.length? listKind list).map fun length => kind.wrap length

/-- What a preview finds in an expression. -/
structure Preview where
  /-- The failures of the mentions on the way. -/
  failures : List Failure
  /-- The value of the expression, if it is known where the expression ends. -/
  value : Option Bool
  /-- As a condition, the expression may be true. -/
  mayHold : Bool
  /-- As a condition, the expression may be false. -/
  mayFail : Bool
  deriving DecidableEq

namespace Preview

/-- The preview of an expression that is computed as a whole. -/
def whole (failures : List Failure) (value : Option Bool) : Preview where
  failures
  value
  -- A value that is not known leaves both ways open.
  mayHold := value != some false
  mayFail := value != some true

/-- The preview of a negation, which exchanges the ways of its operand. -/
def not (operand : Preview) : Preview where
  failures := operand.failures
  value := operand.value.map (!·)
  mayHold := operand.mayFail
  mayFail := operand.mayHold

/-- The preview of a short-circuiting conjunction. -/
def and (left right : Preview) : Preview where
  -- Two ways meet behind it, so that its value is not known there.
  failures := left.failures ++ if left.mayHold then right.failures else []
  value := none
  mayHold := left.mayHold && right.mayHold
  mayFail := left.mayFail || left.mayHold && right.mayFail

/-- The preview of a short-circuiting disjunction. -/
def or (left right : Preview) : Preview where
  -- Two ways meet behind it, so that its value is not known there.
  failures := left.failures ++ if left.mayFail then right.failures else []
  value := none
  mayHold := left.mayHold || left.mayFail && right.mayHold
  mayFail := left.mayFail && right.mayFail

/-- The preview of an operation on two values. -/
def combine (operation : Bool → Bool → Bool) (left right : Preview) : Preview :=
  whole (left.failures ++ right.failures) do
    let first ← left.value
    let second ← right.value
    return operation first second

/-- The preview of a choice. -/
def choose (condition positive negative : Preview) : Preview :=
  -- Only the branches that the condition leaves open are on the way.
  whole (condition.failures ++ (if condition.mayHold then positive.failures else []) ++
    if condition.mayFail then negative.failures else []) none

end Preview

namespace Constant

variable {type : Type}

/-- The preview of an expression in a function body. -/
def preview (outlook : Outlook type) : Constant type → Preview
  -- A mention that fails has no value, and neither has one that waits for a call.
  | .literal value => .whole [] (some value)
  | .not operand => (operand.preview outlook).not
  | .connect .and left right => (left.preview outlook).and (right.preview outlook)
  | .connect .or left right => (left.preview outlook).or (right.preview outlook)
  | .connect .xor left right =>
    .combine (fun first second => first != second) (left.preview outlook) (right.preview outlook)
  | .connect .band left right =>
    .combine (fun first second => first && second) (left.preview outlook) (right.preview outlook)
  | .choose condition positive negative =>
    .choose (condition.preview outlook) (positive.preview outlook) (negative.preview outlook)
  | .compare comparison kind left right =>
    .whole [] do
      let first ← left.foresee outlook kind
      let second ← right.foresee outlook kind
      return comparison.holds first second
  | .panic _ => .whole [] none
  | .mention how subject =>
    match outlook.outcome? how subject with
    | some (.ok value) => .whole [] (some value)
    | some (.error failure) => .whole [failure] none
    | none => .whole [] none

/-- How an expression fails as part of a function body. -/
inductive BodyFailure where
  /-- The body is refused because of failing mentions. -/
  | refused (failures : List Failure)
  /-- The body is accepted and stops when it runs. -/
  | stopped (failure : Failure)
  deriving DecidableEq

/-- The results of some function bodies that are compiled together. -/
def asBodies (reading : Reading type) (constants : List (Constant type)) :
    Except BodyFailure (List Bool) :=
  -- Failing mentions of all bodies count together, and only then do the bodies run in turn.
  match constants.flatMap fun constant => failures reading constant.mentions with
  | [] => (constants.mapM (run reading)).mapError .stopped
  | failures => .error (.refused failures)

/-- The result of an expression in a function body of which everything is known. -/
def asBody (reading : Reading type) (constant : Constant type) : Except BodyFailure Bool :=
  -- What the preview finds is reported alone, then all failing mentions, and then the run decides.
  match (constant.preview reading.outlook).failures, failures reading constant.mentions with
  | [], [] => (constant.run reading).mapError .stopped
  | [], failures => .error (.refused failures)
  | failures, _ => .error (.refused failures)

end Constant

end TypeLists
