import TypeLists.Integer

/-! Constant expressions over types: their syntax, and what ordinary control flow makes of them. -/

namespace TypeLists

/-- The two kinds of list. -/
inductive ListKind where
  | types
  | bools
  deriving DecidableEq

/-- How a constant names a type. -/
inductive Mention where
  /-- The value of the type as a boolean expression. -/
  | value
  /-- The guard that evaluates a boolean expression and is true. -/
  | boolGuard
  /-- The inline form of the boolean guard. -/
  | eagerBool
  /-- The guard that is true of every type that can be named. -/
  | typeGuard
  /-- The inline form of the type guard. -/
  | eagerType
  deriving DecidableEq

/-- The mention is a constant of its own, which is written in the middle of another. -/
def Mention.isInline : Mention → Bool
  | eagerBool | eagerType => true
  | value | boolGuard | typeGuard => false

/-- The binary connectives. -/
inductive Connective where
  /-- Conjunction that skips its right side where the left is false. -/
  | and
  /-- Disjunction that skips its right side where the left is true. -/
  | or
  /-- Exclusive disjunction, which runs both sides. -/
  | xor
  /-- Conjunction that runs both sides. -/
  | band
  deriving DecidableEq

/-- Integer expressions over types of one sort. -/
inductive Arith (type : Type) where
  /-- A written number, to which a minus sign in front of it belongs. -/
  | literal (minus : Bool) (magnitude : Nat)
  /-- The smallest number of the surrounding width. -/
  | least
  /-- The largest number of the surrounding width. -/
  | greatest
  | negate (operand : Arith type)
  | apply (operation : ArithOp) (left right : Arith type)
  /-- The length of a list, brought to the surrounding width. -/
  | length (kind : ListKind) (list : type)

/-- Boolean constants over types of one sort. -/
inductive Constant (type : Type) where
  | literal (value : Bool)
  | not (operand : Constant type)
  | connect (connective : Connective) (left right : Constant type)
  | choose (condition positive negative : Constant type)
  | compare (comparison : Comparison) (kind : IntKind) (left right : Arith type)
  | panic (index : Nat)
  | mention (how : Mention) (subject : type)

/-- What a constant reads off the types it names. -/
structure Reading (type : Type) where
  /-- The result of evaluating a mention. -/
  outcome : Mention → type → Except Failure Bool
  /-- The length of a list. -/
  length : ListKind → type → Nat

namespace Arith

variable {type : Type}

/-- The expression that a number is written as. -/
def ofInt (number : Int) : Arith type :=
  .literal (number < 0) number.natAbs

/-- A minus sign in front of an expression. -/
def minus : Arith type → Arith type
  -- In front of a plain number the sign becomes part of the number.
  | .literal false magnitude => .literal true magnitude
  | operand => .negate operand

/-- The number that is written by a sign and a magnitude. -/
def signed (minus : Bool) (magnitude : Nat) : Int :=
  if minus then -magnitude else magnitude

/-- A minus sign occurs in the expression. -/
def hasMinus : Arith type → Bool
  | .literal minus _ => minus
  | .least | .greatest | .length _ _ => false
  | .negate _ => true
  | .apply _ left right => left.hasMinus || right.hasMinus

/-- The value of an integer expression in a width, left operands first. -/
def eval (reading : Reading type) (kind : IntKind) : Arith type → Except Failure Int
  -- Only operations are checked: written numbers and lengths are brought to the width.
  | .literal minus magnitude => .ok (kind.wrap (signed minus magnitude))
  | .least => .ok kind.least
  | .greatest => .ok kind.greatest
  | .negate operand => do
    let number ← operand.eval reading kind
    kind.checked (-number)
  | .apply operation left right => do
    let first ← left.eval reading kind
    let second ← right.eval reading kind
    kind.apply operation first second
  | .length listKind list => .ok (kind.wrap (reading.length listKind list))

end Arith

namespace Constant

variable {type : Type}

/-- The value of a constant as ordinary control flow finds it. -/
def run (reading : Reading type) : Constant type → Except Failure Bool
  -- The short-circuiting connectives and the choice run one side only where it decides.
  | .literal value => .ok value
  | .not operand => do
    let value ← operand.run reading
    return !value
  | .connect .and left right => do
    let first ← left.run reading
    if first then right.run reading else return false
  | .connect .or left right => do
    let first ← left.run reading
    if first then return true else right.run reading
  | .connect .xor left right => do
    let first ← left.run reading
    let second ← right.run reading
    return first != second
  | .connect .band left right => do
    let first ← left.run reading
    let second ← right.run reading
    return first && second
  | .choose condition positive negative => do
    let decision ← condition.run reading
    if decision then positive.run reading else negative.run reading
  | .compare comparison kind left right => do
    let first ← left.eval reading kind
    let second ← right.eval reading kind
    return comparison.holds first second
  | .panic index => .error (.panic index)
  | .mention how subject => reading.outcome how subject

/-- The failures among the outcomes of some mentions, in the same order. -/
def failures (reading : Reading type) (mentions : List (Mention × type)) : List Failure :=
  mentions.filterMap fun (how, subject) =>
    match reading.outcome how subject with
    | .ok _ => none
    | .error failure => some failure

end Constant

end TypeLists
