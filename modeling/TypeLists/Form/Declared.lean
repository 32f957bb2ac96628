import TypeLists.Form.Sized

/-! The traits that a form has because a declaration for its former says so. -/

namespace TypeLists

/-- The traits that a type has only by declaration. -/
inductive DeclaredTrait where
  | copy
  | clone
  | debug
  | default
  deriving DecidableEq

/-- What the declaration for a former demands of its parameter. -/
inductive Grant where
  /-- Nothing is demanded, and the proof has the given depth. -/
  | always (depth : Nat)
  /-- There is no declaration. -/
  | never
  /-- The parameter has to have all the traits. -/
  | traits (needed : List DeclaredTrait)
  /-- The parameter has to be text or a slice. -/
  | sequence
  /-- A pointer to the parameter has to be nothing but an address. -/
  | address
  deriving DecidableEq

/-- The longest arrays for which there are declarations of all traits. -/
def arrayArity : Nat := 32

/-- The longest tuples for which there are declarations of all traits. -/
def tupleArity : Nat := 12

/-- What the declaration of a trait for a former demands. -/
def Wrapper.grant : DeclaredTrait → Wrapper → Grant
  -- A trait that makes a value asks for one, and a trait that shows a value for a view of it.
  | .copy, .ref _ | .clone, .ref _ => .always 1
  | .copy, .ptr | .copy, .ptrMut | .clone, .ptr | .clone, .ptrMut => .always 1
  | .copy, .array _ | .copy, .option => .traits [.copy]
  | .clone, .array _ | .clone, .option => .traits [.clone]
  | .clone, .cell => .traits [.copy]
  | .debug, .ref _ | .debug, .refMut _ | .debug, .slice | .debug, .array _ | .debug, .option =>
    .traits [.debug]
  | .debug, .ptr | .debug, .ptrMut => .always 1
  | .debug, .cell => .traits [.copy, .debug]
  | .default, .ref _ | .default, .refMut _ => .sequence
  | .default, .ptr | .default, .ptrMut => .address
  | .default, .array 0 => .always 2
  | .default, .array (length + 1) => if length < arrayArity then .traits [.default] else .never
  | .default, .cell => .traits [.default]
  | .default, .option => .always 2
  | _, .phantom => .always 1
  | _, _ => .never

/-- The trait is declared for a type without parameters. -/
def Atom.declared (trait : DeclaredTrait) : Atom → Bool
  -- Text is never held by value, and two interfaces can be shown.
  | primitive .str => trait = .debug
  | primitive _ => true
  | dynamic interface => trait = .debug && (interface = .debug || interface = .any)
  | _ => false

/-- The form is text or a slice. -/
def Form.isSequence : Form → Bool
  | .atom (.primitive .str) => true
  | .wrap .slice _ => true
  | _ => false

/-- The trait is declared for tuples with so many members. -/
def tupleDeclared (trait : DeclaredTrait) (arity : Nat) : Bool :=
  trait = .copy || trait = .clone || arity ≤ tupleArity

mutual

/-- The form has a trait by declaration. -/
def Form.declared : DeclaredTrait → Form → Bool
  -- Functions can be copied and shown, and there are no declarations for the formers of lists.
  | trait, .atom leaf => leaf.declared trait
  | trait, .wrap wrapper inner =>
    match wrapper.grant trait with
    | .always _ => true
    | .never => false
    | .traits needed => needed.all fun trait => inner.declared trait
    | .sequence => inner.isSequence
    | .address => inner.sized
  | trait, .tuple members =>
    tupleDeclared trait members.length && Form.allDeclared trait members
  | trait, .function _ _ => trait ≠ .default
  | _, _ => false

/-- All members have a trait by declaration. -/
def Form.allDeclared : DeclaredTrait → List Form → Bool
  -- The members are asked one after another.
  | _, [] => true
  | trait, head :: rest => head.declared trait && Form.allDeclared trait rest

end

mutual

/-- How deep the proof goes that a form has a trait by declaration, or the search for one. -/
def Form.declaredDepth : DeclaredTrait → Form → Nat
  -- The search looks at every part, also behind one without the trait.
  | trait, .wrap wrapper inner =>
    match wrapper.grant trait with
    | .always depth => depth
    | .never => 1
    | .traits needed => (needed.map fun trait => inner.declaredDepth trait).foldr max 0 + 1
    | .sequence => if inner.isSequence then 2 else 1
    | .address => 3
  | trait, .tuple members =>
    if tupleDeclared trait members.length then Form.allDeclaredDepth trait members + 1 else 1
  | trait, .function _ _ => if trait = .debug then 2 else 1
  | _, _ => 1

/-- How deep the search goes in some members. -/
def Form.allDeclaredDepth : DeclaredTrait → List Form → Nat
  -- The deepest member counts.
  | _, [] => 0
  | trait, head :: rest => max (head.declaredDepth trait) (Form.allDeclaredDepth trait rest)

end

mutual

/-- The search for a trait comes to a pointer that is more than an address. -/
def Form.misfits : DeclaredTrait → Form → Bool
  -- Only the declarations that ask for an address are concerned.
  | trait, .wrap wrapper inner =>
    match wrapper.grant trait with
    | .traits needed => needed.any fun trait => inner.misfits trait
    | .address => !inner.sized
    | _ => false
  | trait, .tuple members => tupleDeclared trait members.length && Form.anyMisfits trait members
  | _, _ => false

/-- The search comes to such a pointer in one of some members. -/
def Form.anyMisfits : DeclaredTrait → List Form → Bool
  -- The members are asked one after another.
  | _, [] => false
  | trait, head :: rest => head.misfits trait || Form.anyMisfits trait rest

end

end TypeLists
