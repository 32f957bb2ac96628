import TypeLists.Form

/-! Which forms have a size that is known in advance. -/

namespace TypeLists

/-- The hole is known to stand for a sized type. -/
def Hole.sized : Hole → Bool
  -- A lost type is not held against the place where it stands.
  | lost => true
  | param sized _ => sized

mutual

/-- The form has a size that is known in advance. -/
def Form.sized : Form → Bool
  -- Text, dynamic objects and slices have none, and a tuple inherits it from its last member.
  | .atom leaf => leaf.sized
  | .wrap wrapper inner => wrapper.sized inner.sized
  | .cons _ _ => true
  | .combine _ _ _ => true
  | .choice _ _ _ => true
  | .tuple members => Form.lastSized members
  | .function _ _ => true
  | .bool _ => true
  | .boolCons _ _ => true
  | .hole cause => cause.sized

/-- The last of some members is sized, if there is one. -/
def Form.lastSized : List Form → Bool
  -- Only the end of the list counts.
  | [] => true
  | [last] => last.sized
  | _ :: next :: rest => Form.lastSized (next :: rest)

end

mutual

/-- How deep the search goes for the part that takes the size from a form. -/
def Form.sizedDepth : Form → Nat
  -- A cell and a tuple hand the question on, and a sized part answers it at once.
  | .wrap .cell inner => if inner.sized then 1 else inner.sizedDepth + 1
  | .tuple members => if Form.lastSized members then 1 else Form.lastSizedDepth members + 1
  | _ => 1

/-- How deep the search goes in the last of some members. -/
def Form.lastSizedDepth : List Form → Nat
  -- Only the end of the list counts.
  | [] => 0
  | [last] => last.sizedDepth
  | _ :: next :: rest => Form.lastSizedDepth (next :: rest)

end

end TypeLists
