import TypeLists.Form

/-! Which forms can be seen to have no values. -/

namespace TypeLists

mutual

/-- The form can be seen from outside to have no values. -/
def Form.visiblyEmpty : Form → Bool
  -- Combinators hold their operands in the open, and the fields of list nodes and guards are private.
  | .atom .nil => true
  | .atom .boolNil => true
  | .wrap (.array length) inner => 0 < length && inner.visiblyEmpty
  | .wrap .not operand | .wrap .force operand => operand.visiblyEmpty
  | .combine _ left right => left.visiblyEmpty || right.visiblyEmpty
  | .choice condition positive negative =>
    condition.visiblyEmpty || positive.visiblyEmpty || negative.visiblyEmpty
  | .tuple members => Form.anyVisiblyEmpty members
  | _ => false

/-- One of the members can be seen to have no values. -/
def Form.anyVisiblyEmpty : List Form → Bool
  -- One such member is enough.
  | [] => false
  | head :: rest => head.visiblyEmpty || Form.anyVisiblyEmpty rest

end

end TypeLists
