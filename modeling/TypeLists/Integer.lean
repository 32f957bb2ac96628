import TypeLists.Failure

/-! Fixed-width integers: their bounds, and arithmetic that fails where a result does not fit. -/

namespace TypeLists

/-- How many bits an integer type has. -/
inductive Width where
  | eight
  | sixteen
  | thirtyTwo
  | sixtyFour
  | oneTwentyEight
  /-- The width of an address, which is 64 bits. -/
  | pointer
  deriving DecidableEq

/-- The number of bits of a width. -/
def Width.bits : Width → Nat
  -- An address has the bits of the 64-bit width but is a width of its own.
  | eight => 8
  | sixteen => 16
  | thirtyTwo => 32
  | sixtyFour => 64
  | oneTwentyEight => 128
  | pointer => 64

/-- How many numbers a width tells apart. -/
def Width.count (width : Width) : Nat :=
  -- Every bit doubles their number.
  1 <<< width.bits

/-- An integer type: its width, and whether it holds negative numbers. -/
structure IntKind where
  /-- Negative numbers are represented. -/
  signed : Bool
  /-- The number of bits. -/
  width : Width
  deriving DecidableEq

/-- The checked binary operations. -/
inductive ArithOp where
  | add
  | sub
  | mul
  /-- The quotient, truncated toward zero. -/
  | div
  /-- The remainder, with the sign of the dividend. -/
  | rem
  deriving DecidableEq

/-- The comparisons of integers. -/
inductive Comparison where
  | lt
  | le
  | gt
  | ge
  | eq
  | ne
  deriving DecidableEq

/-- The truth of a comparison. -/
def Comparison.holds : Comparison → Int → Int → Bool
  -- The sides are mathematical integers, so no width matters here.
  | lt, left, right => left < right
  | le, left, right => left ≤ right
  | gt, left, right => left > right
  | ge, left, right => left ≥ right
  | eq, left, right => left = right
  | ne, left, right => left ≠ right

namespace IntKind

/-- The smallest number of the type. -/
def least (kind : IntKind) : Int :=
  -- Half of a signed type lies below zero.
  if kind.signed then -(kind.width.count / 2 : Nat) else 0

/-- The largest number of the type. -/
def greatest (kind : IntKind) : Int :=
  -- Zero takes one place of the upper half.
  if kind.signed then (kind.width.count / 2 : Nat) - 1 else kind.width.count - 1

/-- The number has a representation in the type. -/
def Fits (kind : IntKind) (number : Int) : Prop :=
  -- Both bounds are included.
  kind.least ≤ number ∧ number ≤ kind.greatest

instance (kind : IntKind) (number : Int) : Decidable (kind.Fits number) :=
  inferInstanceAs (Decidable (_ ∧ _))

/-- The number of the type that agrees with the given one in all bits the type keeps. -/
def wrap (kind : IntKind) (number : Int) : Int :=
  -- Signed types take the residue around zero.
  if kind.signed then number.bmod kind.width.count else number % kind.width.count

/-- A result that has to fit. -/
def checked (kind : IntKind) (number : Int) : Except Failure Int :=
  -- Nothing wraps: the mathematical result is kept or refused.
  if kind.Fits number then .ok number else .error .overflow

/-- The checked binary operations, where division truncates toward zero. -/
def apply (kind : IntKind) : ArithOp → Int → Int → Except Failure Int
  -- A remainder is refused exactly where its quotient is.
  | .add, left, right => kind.checked (left + right)
  | .sub, left, right => kind.checked (left - right)
  | .mul, left, right => kind.checked (left * right)
  | .div, left, right =>
    if right = 0 then .error .divideByZero else kind.checked (left.tdiv right)
  | .rem, left, right =>
    if right = 0 then .error .remainderByZero
    else (kind.checked (left.tdiv right)).map fun _ => left.tmod right

end IntKind

end TypeLists
