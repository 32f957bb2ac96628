import TypeLists.Integer

/-! The formers of types: the types without parameters, and the formers with one or two of them. -/

namespace TypeLists

/-- The primitive types. -/
inductive Primitive where
  /-- An integer of a fixed width. -/
  | integer (kind : IntKind)
  | float32
  | float64
  | bool
  | char
  /-- Text of unknown extent, which has no size. -/
  | str
  deriving DecidableEq

/-- The interfaces that a dynamic object can stand for. -/
inductive Interface where
  | debug
  | any
  | send
  | display
  deriving DecidableEq

/-- The types without parameters. -/
inductive Atom where
  | primitive (kind : Primitive)
  /-- The end of a type list. -/
  | nil
  /-- The end of a boolean list. -/
  | boolNil
  /-- A unit structure that is no boolean expression. -/
  | notEvaluable
  /-- An object known only through an interface. -/
  | dynamic (interface : Interface)
  /-- A boolean expression whose evaluation always fails. -/
  | broken (index : Nat)
  deriving DecidableEq

/-- How long a reference lives. -/
inductive Lifetime where
  /-- As long as the program. -/
  | static
  /-- As long as the place demands where the type is used. -/
  | varying
  deriving DecidableEq

/-- The formers with one parameter. -/
inductive Wrapper where
  /-- A shared reference. -/
  | ref (lifetime : Lifetime)
  /-- An exclusive reference. -/
  | refMut (lifetime : Lifetime)
  /-- A raw pointer for reading. -/
  | ptr
  /-- A raw pointer for writing. -/
  | ptrMut
  /-- Elements in a row, of unknown number. -/
  | slice
  /-- Elements in a row, of known number. -/
  | array (length : Nat)
  /-- A marker that stands for a value without holding one. -/
  | phantom
  /-- A value that can be replaced through a shared reference. -/
  | cell
  /-- A value or none. -/
  | option
  /-- The guard of a boolean expression. -/
  | boolGuard
  /-- The guard of a type. -/
  | typeGuard
  /-- The negation of a boolean expression. -/
  | not
  /-- A boolean expression that evaluates another and is true. -/
  | force
  /-- A delayed type, which a projection gives back. -/
  | thunk
  deriving DecidableEq

/-- The formers of boolean expressions with two parameters. -/
inductive Combinator where
  /-- Disjunction that skips its right operand behind a true literal. -/
  | or
  /-- Conjunction that evaluates both operands. -/
  | and
  /-- The comparison of the lengths of two type lists. -/
  | shorter
  deriving DecidableEq

/-- The former with another lifetime, if it is a reference. -/
def Wrapper.living (lifetime : Lifetime) : Wrapper → Wrapper
  | ref _ => ref lifetime
  | refMut _ => refMut lifetime
  | other => other

/-- The former is a reference. -/
def Wrapper.borrows : Wrapper → Bool
  -- Raw pointers have no lifetime.
  | ref _ | refMut _ => true
  | _ => false

/-- The parameter of the former has to be sized. -/
def Wrapper.needsSized : Wrapper → Bool
  -- Indirections, markers and delayed types accept every parameter, and so does a cell.
  | slice | array _ | option | boolGuard | not | force => true
  | ref _ | refMut _ | ptr | ptrMut | phantom | cell | typeGuard | thunk => false

/-- A type under the former is sized, given whether its parameter is. -/
def Wrapper.sized (inner : Bool) : Wrapper → Bool
  -- A slice has an unknown extent of its own, and a cell the extent of what it holds.
  | slice => false
  | cell => inner
  | _ => true

/-- The type without parameters is sized. -/
def Atom.sized : Atom → Bool
  -- Text and dynamic objects have no extent known in advance.
  | primitive .str | dynamic _ => false
  | _ => true

end TypeLists
