import TypeLists.Form

/-! The marker traits that a form has because its parts have them. -/

namespace TypeLists

/-- The traits that a type has because its parts have them. -/
inductive AutoTrait where
  | send
  | sync
  | unpin
  deriving DecidableEq

/-- What a former demands of its parameter before it has a marker trait. -/
inductive Need where
  /-- The former has the trait whatever its parameter is, by a proof of the given depth. -/
  | always (depth : Nat)
  /-- The former never has the trait. -/
  | never
  /-- The parameter has to have a trait, and its proof starts so many levels below. -/
  | parameter (trait : AutoTrait) (below : Nat)
  deriving DecidableEq

/-- What a former with one parameter demands before it has a marker trait. -/
def Wrapper.need : AutoTrait → Wrapper → Need
  -- Sharing a reference needs a parameter that can be shared, and guards carry no value at all.
  | _, .boolGuard | _, .typeGuard => .always 3
  | .unpin, .ref _ | .unpin, .refMut _ | .unpin, .ptr | .unpin, .ptrMut => .always 1
  | .send, .ref _ => .parameter .sync 1
  | _, .ptr | _, .ptrMut => .never
  | .sync, .cell => .never
  | .unpin, .cell => .parameter .unpin 2
  | trait, .thunk => .parameter trait 2
  | trait, _ => .parameter trait 1

/-- A type without parameters has the marker trait. -/
def Atom.auto (trait : AutoTrait) : Atom → Bool
  -- A dynamic object has what its interface names, and nothing else.
  | dynamic interface => interface = .send && trait = .send
  | _ => true

mutual

/-- The form has a marker trait because of its parts. -/
def Form.auto : AutoTrait → Form → Bool
  -- List nodes and booleans carry no values, and a function no parts.
  | trait, .atom leaf => leaf.auto trait
  | trait, .wrap wrapper inner =>
    match wrapper.need trait with
    | .always _ => true
    | .never => false
    | .parameter needed _ => inner.auto needed
  | _, .cons _ _ => true
  | trait, .combine _ left right => left.auto trait && right.auto trait
  | trait, .choice condition positive negative =>
    condition.auto trait && positive.auto trait && negative.auto trait
  | trait, .tuple members => Form.allAuto trait members
  | _, .function _ _ => true
  | _, .bool _ => true
  | _, .boolCons _ _ => true
  | _, .hole _ => false

/-- All members have a marker trait. -/
def Form.allAuto : AutoTrait → List Form → Bool
  -- The members are asked one after another.
  | _, [] => true
  | trait, head :: rest => head.auto trait && Form.allAuto trait rest

end

mutual

/-- How deep the proof goes that a form has a marker trait, or the search for one. -/
def Form.autoDepth : AutoTrait → Form → Nat
  -- The search looks at every part, also behind one without the trait.
  | trait, .wrap wrapper inner =>
    match wrapper.need trait with
    | .always depth => depth
    | .never => 1
    | .parameter needed below => inner.autoDepth needed + below
  | trait, .combine _ left right => max (left.autoDepth trait) (right.autoDepth trait) + 1
  | trait, .choice condition positive negative =>
    max (condition.autoDepth trait) (max (positive.autoDepth trait) (negative.autoDepth trait)) + 1
  | trait, .tuple members => Form.allAutoDepth trait members + 1
  | _, .cons _ _ | _, .boolCons _ _ => 3
  | _, .bool _ => 2
  | _, _ => 1

/-- How deep the search goes in some members. -/
def Form.allAutoDepth : AutoTrait → List Form → Nat
  -- The deepest member counts.
  | _, [] => 0
  | trait, head :: rest => max (head.autoDepth trait) (Form.allAutoDepth trait rest)

end

end TypeLists
