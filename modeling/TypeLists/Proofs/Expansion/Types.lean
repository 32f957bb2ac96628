import TypeLists.Proofs.Literal.Unrolling
import TypeLists.Ty

/-! The expansion of types: it is regular in every part. -/

namespace TypeLists

open Expanding (Regular)

/-- A mention adds at most one step to the expansion of the type that it names. -/
theorem Mention.regular_expand (how : Mention) (subject : Ty) {action : Nat → Expanding Ty}
    (regular : Regular action) : Regular (how.expand subject action) := by
  unfold Mention.expand
  split
  · exact regular.step subject
  · exact regular

mutual

/-- The expansion of a type is regular. -/
theorem Ty.regular_expand : ∀ type : Ty, Regular type.expand
  -- Every former expands its parts one after another, all at its own depth.
  | .atom _ => .pure _
  | .wrap _ inner => inner.regular_expand.bind fun _ => .pure _
  | .cons head tail => head.regular_expand.bind fun _ => tail.regular_expand.bind fun _ => .pure _
  | .combine _ left right =>
    left.regular_expand.bind fun _ => right.regular_expand.bind fun _ => .pure _
  | .choice condition positive negative =>
    condition.regular_expand.bind fun _ => positive.regular_expand.bind fun _ =>
      negative.regular_expand.bind fun _ => .pure _
  | .tuple members => (Ty.regular_expandAll members).bind fun _ => .pure _
  | .function arguments result =>
    (Ty.regular_expandAll arguments).bind fun _ => result.regular_expand.bind fun _ => .pure _
  | .bool constant => constant.regular_expand.bind fun _ => .pure _
  | .boolCons constant tail =>
    constant.regular_expand.bind fun _ => tail.regular_expand.bind fun _ => .pure _
  | .list tokens => (Literal.regular_elements (Ty.regular_expanders tokens)).bind fun _ => .pure _
  | .boolList tokens =>
    (Literal.regular_elements (Constant.regular_expanders tokens)).bind fun _ => .pure _
  | .output subject => subject.regular_expand.bind fun _ => .pure _
  | .select subject => subject.regular_expand.bind fun _ => .pure _
  | .named _ => .pure _

/-- The expansion of some types that stand at one depth is regular. -/
theorem Ty.regular_expandAll : ∀ types : List Ty, Regular (Ty.expandAll types)
  | [] => .pure []
  | head :: rest =>
    head.regular_expand.bind fun _ => (Ty.regular_expandAll rest).bind fun _ => .pure _

/-- The elements of a type list wait for a regular expansion. -/
theorem Ty.regular_expanders : ∀ (tokens : List (Token Ty)) (action : Nat → Expanding Ty),
    .element action ∈ Ty.expanders tokens → Regular action
  | .comma :: rest, action, member =>
    Ty.regular_expanders rest action (by simpa [Ty.expanders] using member)
  | .element head :: rest, action, member => by
    rcases List.mem_cons.mp member with same | member
    · cases same
      exact head.regular_expand
    · exact Ty.regular_expanders rest action member

/-- The expansion of a constant is regular. -/
theorem Constant.regular_expand : ∀ constant : Constant Ty, Regular constant.expand
  -- Only the types that a constant names have literals in them.
  | .literal _ => .pure _
  | .not operand => operand.regular_expand.bind fun _ => .pure _
  | .connect _ left right =>
    left.regular_expand.bind fun _ => right.regular_expand.bind fun _ => .pure _
  | .choose condition positive negative =>
    condition.regular_expand.bind fun _ => positive.regular_expand.bind fun _ =>
      negative.regular_expand.bind fun _ => .pure _
  | .compare _ _ left right =>
    left.regular_expand.bind fun _ => right.regular_expand.bind fun _ => .pure _
  | .panic _ => .pure _
  | .mention how subject =>
    (how.regular_expand subject subject.regular_expand).bind fun _ => .pure _

/-- The expansion of an integer expression is regular. -/
theorem Arith.regular_expand : ∀ number : Arith Ty, Regular number.expand
  | .literal _ _ => .pure _
  | .least => .pure _
  | .greatest => .pure _
  | .negate operand => operand.regular_expand.bind fun _ => .pure _
  | .apply _ left right =>
    left.regular_expand.bind fun _ => right.regular_expand.bind fun _ => .pure _
  | .length _ list => list.regular_expand.bind fun _ => .pure _

/-- The elements of a boolean list wait for a regular expansion. -/
theorem Constant.regular_expanders :
    ∀ (tokens : List (Token (Constant Ty))) (action : Nat → Expanding (Constant Ty)),
      .element action ∈ Constant.expanders tokens → Regular action
  | .comma :: rest, action, member =>
    Constant.regular_expanders rest action (by simpa [Constant.expanders] using member)
  | .element head :: rest, action, member => by
    rcases List.mem_cons.mp member with same | member
    · cases same
      exact head.regular_expand
    · exact Constant.regular_expanders rest action member

end

end TypeLists
