import TypeLists.Constant
import TypeLists.Former
import TypeLists.Literal

/-! Types as a program writes them, with literals, projections, aliases, parameters and constants. -/

namespace TypeLists

/-- The type parameters of a generic function. -/
inductive Param where
  /-- The parameter that meets the bound of the function. -/
  | expression
  /-- The parameter without any bound. -/
  | type
  deriving DecidableEq

/-- The names that stand for a type. -/
inductive TypeName where
  | alias (name : String)
  | param (param : Param)
  deriving DecidableEq

/-- A written type. -/
inductive Ty where
  | atom (leaf : Atom)
  | wrap (wrapper : Wrapper) (inner : Ty)
  | cons (head tail : Ty)
  | combine (combinator : Combinator) (left right : Ty)
  /-- The choice between two delayed types. -/
  | choice (condition positive negative : Ty)
  | tuple (members : List Ty)
  | function (arguments : List Ty) (result : Ty)
  | bool (constant : Constant Ty)
  | boolCons (constant : Constant Ty) (tail : Ty)
  /-- The literal of a type list. -/
  | list (tokens : List (Token Ty))
  /-- The literal of a boolean list. -/
  | boolList (tokens : List (Token (Constant Ty)))
  /-- The projection out of a delayed type. -/
  | output (subject : Ty)
  /-- The projection out of a choice. -/
  | select (subject : Ty)
  /-- The type that a name stands for. -/
  | named (name : TypeName)

namespace Ty

/-- The end of a type list. -/
def nil : Ty := .atom .nil

/-- The end of a boolean list. -/
def boolNil : Ty := .atom .boolNil

end Ty

/-- Expand the type that a mention names, where an inline constant is a step of its own. -/
def Mention.expand (how : Mention) (subject : Ty) (action : Nat → Expanding Ty) (depth : Nat) :
    Expanding Ty :=
  if how.isInline then Expanding.step depth subject (action (depth + 1)) else action depth

mutual

/-- Replace every literal in a type by its chain, from a depth on. -/
def Ty.expand : Ty → Nat → Expanding Ty
  -- Parts are expanded in the order in which they are written, all at the depth of the type.
  | .atom leaf, _ => return .atom leaf
  | .wrap wrapper inner, depth => return .wrap wrapper (← inner.expand depth)
  | .cons head tail, depth => return .cons (← head.expand depth) (← tail.expand depth)
  | .combine combinator left right, depth =>
    return .combine combinator (← left.expand depth) (← right.expand depth)
  | .choice condition positive negative, depth =>
    return .choice (← condition.expand depth) (← positive.expand depth) (← negative.expand depth)
  | .tuple members, depth => return .tuple (← Ty.expandAll members depth)
  | .function arguments result, depth =>
    return .function (← Ty.expandAll arguments depth) (← result.expand depth)
  | .bool constant, depth => return .bool (← constant.expand depth)
  | .boolCons constant tail, depth =>
    return .boolCons (← constant.expand depth) (← tail.expand depth)
  | .list tokens, depth =>
    return (← Literal.elements (Ty.expanders tokens) depth).foldr .cons .nil
  | .boolList tokens, depth =>
    return (← Literal.elements (Constant.expanders tokens) depth).foldr .boolCons .boolNil
  | .output subject, depth => return .output (← subject.expand depth)
  | .select subject, depth => return .select (← subject.expand depth)
  | .named name, _ => return .named name

/-- Replace the literals in some types that stand at one depth. -/
def Ty.expandAll : List Ty → Nat → Expanding (List Ty)
  -- The types follow one another.
  | [], _ => return []
  | head :: rest, depth => return (← head.expand depth) :: (← Ty.expandAll rest depth)

/-- The tokens of a type list, each element waiting for the depth of its place. -/
def Ty.expanders : List (Token Ty) → List (Token (Nat → Expanding Ty))
  -- The literal's rules decide when an element is expanded.
  | [] => []
  | .comma :: rest => .comma :: Ty.expanders rest
  | .element head :: rest => .element head.expand :: Ty.expanders rest

/-- Replace every literal in the types that a constant names. -/
def Constant.expand : Constant Ty → Nat → Expanding (Constant Ty)
  -- The expression itself stays as it is.
  | .literal value, _ => return .literal value
  | .not operand, depth => return .not (← operand.expand depth)
  | .connect connective left right, depth =>
    return .connect connective (← left.expand depth) (← right.expand depth)
  | .choose condition positive negative, depth =>
    return .choose (← condition.expand depth) (← positive.expand depth) (← negative.expand depth)
  | .compare comparison kind left right, depth =>
    return .compare comparison kind (← left.expand depth) (← right.expand depth)
  | .panic index, _ => return .panic index
  | .mention how subject, depth => return .mention how (← how.expand subject subject.expand depth)

/-- Replace every literal in the lists that an integer expression measures. -/
def Arith.expand : Arith Ty → Nat → Expanding (Arith Ty)
  -- The expression itself stays as it is.
  | .literal minus magnitude, _ => return .literal minus magnitude
  | .least, _ => return .least
  | .greatest, _ => return .greatest
  | .negate operand, depth => return .negate (← operand.expand depth)
  | .apply operation left right, depth =>
    return .apply operation (← left.expand depth) (← right.expand depth)
  | .length kind list, depth => return .length kind (← list.expand depth)

/-- The tokens of a boolean list, each element waiting for the depth of its place. -/
def Constant.expanders :
    List (Token (Constant Ty)) → List (Token (Nat → Expanding (Constant Ty)))
  -- The literal's rules decide when an element is expanded.
  | [] => []
  | .comma :: rest => .comma :: Constant.expanders rest
  | .element head :: rest => .element head.expand :: Constant.expanders rest

end

end TypeLists
