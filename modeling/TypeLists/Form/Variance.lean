import TypeLists.Form

/-! How the references in a form behave when their lifetimes change. -/

namespace TypeLists

/-- The way in which a type depends on one place in it. -/
inductive Variance where
  /-- The type gets shorter-lived together with the place. -/
  | covariant
  /-- The type gets longer-lived as the place gets shorter-lived. -/
  | contravariant
  /-- The place cannot change. -/
  | invariant
  deriving DecidableEq

/-- The variance of the same place seen through a function argument. -/
def Variance.flip : Variance → Variance
  -- An invariant place stays invariant.
  | covariant => contravariant
  | contravariant => covariant
  | invariant => invariant

/-- The former lets its parameter be replaced, not only read. -/
def Wrapper.mutable : Wrapper → Bool
  -- Whatever can be written through must keep its type.
  | refMut _ | ptrMut | cell => true
  | _ => false

/-- The former is a reference whose lifetime can change. -/
def Wrapper.varies : Wrapper → Bool
  | ref .varying | refMut .varying => true
  | _ => false

mutual

/-- The variances of all references that can change in a form that stands at a place of the given variance. -/
def Form.lifetimes : Variance → Form → List Variance
  -- Below a mutable former nothing can change, and every other former keeps the variance.
  | _, .atom _ => []
  | place, .wrap wrapper inner =>
    (if wrapper.varies then [place] else []) ++
      inner.lifetimes (if wrapper.mutable then .invariant else place)
  | place, .cons head tail => head.lifetimes place ++ tail.lifetimes place
  | place, .combine _ left right => left.lifetimes place ++ right.lifetimes place
  | place, .choice condition positive negative =>
    condition.lifetimes place ++ positive.lifetimes place ++ negative.lifetimes place
  | place, .tuple members => Form.allLifetimes place members
  | place, .function arguments result =>
    Form.allLifetimes place.flip arguments ++ result.lifetimes place
  | _, .bool _ => []
  | place, .boolCons _ tail => tail.lifetimes place
  | _, .hole _ => []

/-- The variances of all references that can change in some forms that stand at places of the given variance. -/
def Form.allLifetimes : Variance → List Form → List Variance
  -- The forms follow one another.
  | _, [] => []
  | place, head :: rest => head.lifetimes place ++ Form.allLifetimes place rest

end

/-- The two ways to change all lifetimes of a form. -/
inductive Direction where
  | shorten
  | lengthen
  deriving DecidableEq

/-- The variance that a change of lifetimes needs of every reference. -/
def Direction.needed : Direction → Variance
  | shorten => .covariant
  | lengthen => .contravariant

/-- A form can be used in place of itself with all lifetimes changed. -/
def Form.adapts (direction : Direction) (form : Form) : Bool :=
  -- A form without references adapts both ways.
  (form.lifetimes .covariant).all fun variance => variance = direction.needed

end TypeLists
