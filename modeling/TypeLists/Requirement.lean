import TypeLists.Fault
import TypeLists.Trait

/-! Requirements on forms: what is reported where a form does not implement a trait, and what the
formers of a form require of its parts. -/

namespace TypeLists

namespace Form

/-- The fault of a form that does not implement a trait. -/
def shortfall (form : Form) : Trait → Fault
  -- A pointer that is more than an address breaks a rule of its own.
  | .declared trait => if form.misfits trait then .mismatched else .illTyped
  | _ => .illTyped

/-- The faults of the requirement that a form implements a trait. -/
def unmet (limit : Nat) (trait : Trait) (form : Form) : List Fault :=
  -- Nothing is required of a form in which something was lost.
  if !form.settled then []
  else if limit < form.proofDepth trait then [.tooDeep]
  else if form.implements trait then []
  else [form.shortfall trait]

/-- The faults of the requirements of a boolean guard on what it guards. -/
def unguardable (limit : Nat) (operand : Form) : List Fault :=
  operand.unmet limit .sized ++ operand.unmet limit .boolExpr

/-- The faults of what the outermost former of a form requires of its parameters. -/
def malformed (limit : Nat) : Form → List Fault
  -- Tails are lists of the same kind, and values that are held in place are sized.
  | .wrap .boolGuard inner => inner.unguardable limit
  | .wrap wrapper inner => if wrapper.needsSized then inner.unmet limit .sized else []
  | .cons _ tail => tail.unmet limit (.list .types)
  | .boolCons _ tail => tail.unmet limit (.list .bools)
  | .combine _ left right => left.unmet limit .sized ++ right.unmet limit .sized
  | .choice condition positive negative =>
    condition.unmet limit .sized ++ positive.unmet limit .sized ++ negative.unmet limit .sized
  | .tuple members => members.dropLast.flatMap (unmet limit .sized)
  | .atom _ | .function _ _ | .bool _ | .hole _ => []

end Form

mutual

/-- The faults of what all formers in a form require of their parameters. -/
def Form.malformations (limit : Nat) : Form → List Fault
  -- Every part is a form of its own.
  | .atom leaf => (Form.atom leaf).malformed limit
  | .wrap wrapper inner =>
    inner.malformations limit ++ (Form.wrap wrapper inner).malformed limit
  | .cons head tail =>
    head.malformations limit ++ tail.malformations limit ++ (Form.cons head tail).malformed limit
  | .combine combinator left right =>
    left.malformations limit ++ right.malformations limit ++
      (Form.combine combinator left right).malformed limit
  | .choice condition positive negative =>
    condition.malformations limit ++ positive.malformations limit ++
      negative.malformations limit ++ (Form.choice condition positive negative).malformed limit
  | .tuple members =>
    Form.allMalformations limit members ++ (Form.tuple members).malformed limit
  | .function arguments result =>
    Form.allMalformations limit arguments ++ result.malformations limit
  | .bool _ => []
  | .boolCons value tail =>
    tail.malformations limit ++ (Form.boolCons value tail).malformed limit
  | .hole _ => []

/-- The faults of what all formers in some forms require of their parameters. -/
def Form.allMalformations (limit : Nat) : List Form → List Fault
  -- The forms follow one another.
  | [] => []
  | head :: rest => head.malformations limit ++ Form.allMalformations limit rest

end

end TypeLists
