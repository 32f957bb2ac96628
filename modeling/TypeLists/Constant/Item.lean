import TypeLists.Constant

/-! Constant items: every mention is evaluated, in the order in which its result could be needed,
before the expression itself runs. -/

namespace TypeLists

namespace Constant

variable {type : Type}

/-- The constant is nothing but a mention. -/
def isMention : Constant type → Bool
  | .mention _ _ => true
  | _ => false

/-- A condition would hold if each of the parts that decide it did. -/
def leansPositive : Constant type → Bool
  -- Conditions are decided part by part, and everything else is a part.
  | .not operand => !operand.leansPositive
  | .connect .and left right => left.leansPositive && right.leansPositive
  | .connect .or left right => left.leansPositive || right.leansPositive
  | _ => true

/--
All mentions of a constant, in the order in which they are evaluated.

A connective that runs both sides takes a bare mention only after the sides that are computed first,
and a choice puts the branch last to which its condition leans.
-/
def mentions : Constant type → List (Mention × type)
  -- Integer expressions name lists only, whose lengths never fail.
  | .literal _ | .compare _ _ _ _ | .panic _ => []
  | .not operand => operand.mentions
  | .connect .and left right | .connect .or left right => left.mentions ++ right.mentions
  | .connect .xor left right | .connect .band left right =>
    if left.isMention && !right.isMention then right.mentions ++ left.mentions
    else left.mentions ++ right.mentions
  | .choose condition positive negative =>
    condition.mentions ++
      if condition.leansPositive then negative.mentions ++ positive.mentions
      else positive.mentions ++ negative.mentions
  | .mention how subject => [(how, subject)]

/-- The result of a constant item: the first failing mention, or else what control flow finds. -/
def asItem (reading : Reading type) (constant : Constant type) : Except Failure Bool :=
  -- Whether control reaches a mention plays no part.
  match failures reading constant.mentions with
  | failure :: _ => .error failure
  | [] => constant.run reading

end Constant

end TypeLists
