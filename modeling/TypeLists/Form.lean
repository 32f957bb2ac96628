import TypeLists.Constant
import TypeLists.Former

/-! Normal forms of types, in which only formers and booleans are left, and their equality. -/

namespace TypeLists

/-- What a generic function may demand of its bounded parameter. -/
inductive Bound where
  | boolExpr
  | list (kind : ListKind)
  deriving DecidableEq

/-- A place of a form whose type is not known. -/
inductive Hole where
  /-- The type was lost to a fault that is reported elsewhere. -/
  | lost
  /-- The type is a parameter, of which only the size and the bound are known. -/
  | param (sized : Bool) (bound : Option Bound)
  deriving DecidableEq

/-- What is known of the hole includes that it meets a bound. -/
def Hole.meets (demanded : Bound) : Hole → Bool
  -- A parameter meets its own bound and no other.
  | lost => false
  | param _ bound => bound = some demanded

/-- The normal form of a type, where a constant that failed has no value. -/
inductive Form where
  | atom (leaf : Atom)
  | wrap (wrapper : Wrapper) (inner : Form)
  | cons (head tail : Form)
  | combine (combinator : Combinator) (left right : Form)
  | choice (condition positive negative : Form)
  | tuple (members : List Form)
  | function (arguments : List Form) (result : Form)
  | bool (value : Option Bool)
  | boolCons (value : Option Bool) (tail : Form)
  | hole (cause : Hole)

namespace Form

/-- The end of a type list, which is the empty one. -/
def nil : Form := .atom .nil

/-- The end of a boolean list, which is the empty one. -/
def boolNil : Form := .atom .boolNil

/-- The form of a type that was lost to a fault. -/
def lost : Form := .hole .lost

end Form

mutual

/-- Two forms agree former by former. -/
def Form.agree : Form → Form → Bool
  -- Equal formers are compared by their parts.
  | .atom left, .atom right => left = right
  | .wrap leftWrapper left, .wrap rightWrapper right =>
    leftWrapper = rightWrapper && left.agree right
  | .cons leftHead leftTail, .cons rightHead rightTail =>
    leftHead.agree rightHead && leftTail.agree rightTail
  | .combine leftCombinator left left', .combine rightCombinator right right' =>
    leftCombinator = rightCombinator && left.agree right && left'.agree right'
  | .choice leftCondition left left', .choice rightCondition right right' =>
    leftCondition.agree rightCondition && left.agree right && left'.agree right'
  | .tuple left, .tuple right => Form.agreeAll left right
  | .function leftArguments left, .function rightArguments right =>
    Form.agreeAll leftArguments rightArguments && left.agree right
  | .bool left, .bool right => left = right
  | .boolCons leftValue left, .boolCons rightValue right =>
    leftValue = rightValue && left.agree right
  | .hole left, .hole right => left = right
  | _, _ => false

/-- Two lists of forms agree member by member. -/
def Form.agreeAll : List Form → List Form → Bool
  -- Lists of different lengths never agree.
  | [], [] => true
  | left :: lefts, right :: rights => left.agree right && Form.agreeAll lefts rights
  | _, _ => false

end

mutual

/-- Agreement of forms is equality. -/
theorem Form.agree_iff : ∀ left right : Form, left.agree right = true ↔ left = right
  -- Both sides have the same former, and their parts are equal, or no rule applies.
  | .atom _, right => by cases right <;> simp [Form.agree]
  | .wrap _ inner, right => by cases right <;> simp [Form.agree, Form.agree_iff inner]
  | .cons head tail, right => by
    cases right <;> simp [Form.agree, Form.agree_iff head, Form.agree_iff tail]
  | .combine _ first second, right => by
    cases right <;> simp [Form.agree, Form.agree_iff first, Form.agree_iff second, and_assoc]
  | .choice condition first second, right => by
    cases right <;>
      simp [Form.agree, Form.agree_iff condition, Form.agree_iff first, Form.agree_iff second,
        and_assoc]
  | .tuple members, right => by cases right <;> simp [Form.agree, Form.agreeAll_iff members]
  | .function arguments result, right => by
    cases right <;> simp [Form.agree, Form.agreeAll_iff arguments, Form.agree_iff result]
  | .bool _, right => by cases right <;> simp [Form.agree]
  | .boolCons _ tail, right => by cases right <;> simp [Form.agree, Form.agree_iff tail]
  | .hole _, right => by cases right <;> simp [Form.agree]

/-- Agreement of lists of forms is equality. -/
theorem Form.agreeAll_iff : ∀ left right : List Form, Form.agreeAll left right = true ↔ left = right
  -- The lists are taken apart together.
  | [], right => by cases right <;> simp [Form.agreeAll]
  | left :: lefts, right => by
    cases right <;> simp [Form.agreeAll, Form.agree_iff left, Form.agreeAll_iff lefts]

end

instance : DecidableEq Form := fun left right =>
  decidable_of_iff (left.agree right = true) (Form.agree_iff left right)

mutual

/-- The unknown places of a form, among which are the constants without a value. -/
def Form.holes : Form → List Hole
  -- The parts follow one another.
  | .atom _ => []
  | .wrap _ inner => inner.holes
  | .cons head tail => head.holes ++ tail.holes
  | .combine _ left right => left.holes ++ right.holes
  | .choice condition positive negative => condition.holes ++ positive.holes ++ negative.holes
  | .tuple members => Form.allHoles members
  | .function arguments result => Form.allHoles arguments ++ result.holes
  | .bool value => if value.isSome then [] else [.lost]
  | .boolCons value tail => (if value.isSome then [] else [.lost]) ++ tail.holes
  | .hole cause => [cause]

/-- The unknown places of some forms. -/
def Form.allHoles : List Form → List Hole
  -- The forms follow one another.
  | [] => []
  | head :: rest => head.holes ++ Form.allHoles rest

end

/-- Nothing in the form was lost to a fault. -/
def Form.settled (form : Form) : Bool :=
  form.holes.all (· ≠ .lost)

/-- No parameter stands in the form. -/
def Form.closed (form : Form) : Bool :=
  form.holes.all (· = .lost)

end TypeLists
