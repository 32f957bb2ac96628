import TypeLists.Form

/-! The printed name of a form. -/

namespace TypeLists

/-- The name of an integer type: whether it has a sign, then its number of bits. -/
def IntKind.name (kind : IntKind) : String :=
  -- The width of an address has a word of its own.
  (if kind.signed then "i" else "u") ++
    match kind.width with
    | .pointer => "size"
    | width => toString width.bits

/-- The name of a primitive type. -/
def Primitive.name : Primitive → String
  | integer kind => kind.name
  | float32 => "f32"
  | float64 => "f64"
  | bool => "bool"
  | char => "char"
  | str => "str"

/-- The path of an interface. -/
def Interface.name : Interface → String
  | debug => "core::fmt::Debug"
  | any => "core::any::Any"
  | send => "core::marker::Send"
  | display => "core::fmt::Display"

/-- The name of a type without parameters. -/
def Atom.name : Atom → String
  | primitive kind => kind.name
  | nil => "tmppy::type_list::Nil"
  | boolNil => "tmppy::bool_list::BoolNil"
  | notEvaluable => "q::NotEvaluable"
  | dynamic interface => "dyn " ++ interface.name
  | broken index => "q::Broken<" ++ toString index ++ ">"

/-- What stands before the parameter of a former. -/
def Wrapper.opening : Wrapper → String
  | ref _ => "&"
  | refMut _ => "&mut "
  | ptr => "*const "
  | ptrMut => "*mut "
  | slice => "["
  | array _ => "["
  | phantom => "core::marker::PhantomData<"
  | cell => "core::cell::Cell<"
  | option => "core::option::Option<"
  | boolGuard => "tmppy::eager::AlwaysTrueFromBool<"
  | typeGuard => "tmppy::eager::AlwaysTrueFromType<"
  | not => "q::Not<"
  | force => "q::Force<"
  | thunk => "q::Thunk<"

/-- What stands behind the parameter of a former. -/
def Wrapper.closing : Wrapper → String
  -- An array ends with its length.
  | ref _ | refMut _ | ptr | ptrMut => ""
  | slice => "]"
  | array length => "; " ++ toString length ++ "]"
  | phantom | cell | option | boolGuard | typeGuard | not | force | thunk => ">"

/-- What stands before the parameters of a combinator. -/
def Combinator.opening : Combinator → String
  | or => "q::Or<"
  | and => "q::And<"
  | shorter => "q::Shorter<"

/-- The name of the value of a constant. -/
def boolName : Option Bool → String
  -- A constant without a value has no name that is ever shown.
  | some true => "true"
  | some false => "false"
  | none => "_"

mutual

/-- The printed name of a form. -/
def Form.name : Form → String
  -- A tuple of one member keeps a comma, and a function does not print an empty result.
  | .atom leaf => leaf.name
  | .wrap wrapper inner => wrapper.opening ++ inner.name ++ wrapper.closing
  | .cons head tail => "tmppy::type_list::Cons<" ++ head.name ++ ", " ++ tail.name ++ ">"
  | .combine combinator left right =>
    combinator.opening ++ left.name ++ ", " ++ right.name ++ ">"
  | .choice condition positive negative =>
    "q::If<" ++ condition.name ++ ", " ++ positive.name ++ ", " ++ negative.name ++ ">"
  | .tuple [member] => "(" ++ member.name ++ ",)"
  | .tuple members => "(" ++ Form.names members ++ ")"
  | .function arguments (.tuple []) => "fn(" ++ Form.names arguments ++ ")"
  | .function arguments result => "fn(" ++ Form.names arguments ++ ") -> " ++ result.name
  | .bool value => "tmppy::eager::Bool<" ++ boolName value ++ ">"
  | .boolCons value tail =>
    "tmppy::bool_list::BoolCons<" ++ boolName value ++ ", " ++ tail.name ++ ">"
  | .hole _ => "_"

/-- The printed names of some forms, with commas between them. -/
def Form.names : List Form → String
  -- No comma follows the last name.
  | [] => ""
  | [last] => last.name
  | head :: next :: rest => head.name ++ ", " ++ Form.names (next :: rest)

end

end TypeLists
