import TypeLists.Form.Emptiness
import TypeLists.Form.Name
import TypeLists.Form.Variance
import TypeLists.Generic
import TypeLists.Sealing
import TypeLists.Signature

/-! The questions a program can ask about types and constants, and their answers. -/

namespace TypeLists

/-- Where an expression stands. -/
inductive Place where
  /-- The expression is the whole of a constant item. -/
  | item
  /-- The expression is part of a function body. -/
  | body
  deriving DecidableEq

/-- A question about types and constants. -/
inductive Query where
  | length (kind : ListKind) (subject : Ty)
  | name (subject : Ty)
  /-- Whether two types have the same identity. -/
  | sameIdentity (left right : Ty)
  /-- The assertion that two types are the same. -/
  | assertSame (left right : Ty)
  /-- The witness that two types are the same. -/
  | witness (left right : Ty)
  | value (place : Place) (constant : Constant Ty)
  | implements (trait : Trait) (subject : Ty)
  /-- A type that stands in an alias nobody uses. -/
  | mention (subject : Ty)
  /-- Whether the lifetimes of a type can be changed. -/
  | adapts (direction : Direction) (subject : Ty)
  /-- Whether a match without arms covers a type. -/
  | matchEmpty (subject : Ty)
  | layout (subject : Ty)
  | forge (attempt : Attempt)
  | generic (function : Generic)

/-- Replace every literal in the types of a query. -/
def Query.expand : Query → Expanding Query
  -- Every type of a query is at the outermost level.
  | .length kind subject => return .length kind (← subject.expand 0)
  | .name subject => return .name (← subject.expand 0)
  | .sameIdentity left right => return .sameIdentity (← left.expand 0) (← right.expand 0)
  | .assertSame left right => return .assertSame (← left.expand 0) (← right.expand 0)
  | .witness left right => return .witness (← left.expand 0) (← right.expand 0)
  | .value place constant => return .value place (← constant.expand 0)
  | .implements trait subject => return .implements trait (← subject.expand 0)
  | .mention subject => return .mention (← subject.expand 0)
  | .adapts direction subject => return .adapts direction (← subject.expand 0)
  | .matchEmpty subject => return .matchEmpty (← subject.expand 0)
  | .layout subject => return .layout (← subject.expand 0)
  | .forge attempt => return .forge attempt
  | .generic function => do
    let body ← function.body.expand 0
    let calls ← function.calls.mapM fun call =>
      return (← call.1.expand 0, ← call.2.expand 0)
    return .generic { function with body, calls }

/-- The faults of the requirement that two forms are the same type. -/
def Form.unlike (left right : Form) : List Fault :=
  -- Nothing is required of a form in which something was lost.
  if left.settled && right.settled && left ≠ right then [.illTyped] else []

/-- A positive answer, unless two types differ. -/
def Ty.identify (scope : Scope) (left right : Ty) : Answer := do
  scope.conclude do
    let left ← left.normalize scope
    let right ← right.normalize scope
    Checked.note .formation (left.unlike right)
    return .flag true

/-- Whether the references of a type can change their lifetimes. -/
def Ty.adapts (scope : Scope) (direction : Direction) (type : Ty) : Answer := do
  -- The type stands in the signature of a function, with one lifetime for all references in it.
  let signature := Signature.ofChecked scope.limit (type.normalize scope.varying)
  let form ← Fault.refuse (scope.background ++ signature.faults) signature.form
  if form.adapts direction then return .flag true else throw .lifetime

/-- Whether a match without arms covers a type. -/
def Ty.matchEmpty (scope : Scope) (type : Ty) : Answer := do
  -- The match is looked at as soon as the type is known and can be held in a variable.
  let signature := Signature.ofChecked scope.limit (type.normalize scope)
  let form ← Fault.refuse (scope.background ++ signature.reduction) signature.form
  if !form.sized then throw .illTyped
  if !form.visiblyEmpty then throw .inhabited
  Fault.refuse signature.formation (.flag true)

/-- The answer of a query without literals. -/
def Query.answer (scope : Scope) : Query → Answer
  -- The types of a query are normalized, and their faults come before the question itself.
  | .length kind subject => scope.conclude do
    let form ← subject.normalize scope
    Checked.note .formation (form.unmet scope.limit (.list kind))
    return .number (form.length kind)
  | .name subject => scope.conclude do
    let form ← subject.normalize scope
    return .text form.name
  | .sameIdentity left right => scope.conclude do
    let left ← left.normalize scope
    let right ← right.normalize scope
    return .flag (left = right)
  | .assertSame left right => Ty.identify scope left right
  | .witness left right => Ty.identify scope left right
  | .value .item constant => scope.conclude do
    let value ← Constant.settle (constant.normalize scope)
    return .flag (value.getD false)
  | .value .body constant => do
    let constant ← scope.conclude (constant.normalize scope)
    return .flag (← Refusal.ofBody (constant.asBody Form.reading))
  | .implements trait subject => scope.conclude do
    let form ← subject.normalize scope
    Checked.note .formation (form.unmet scope.limit trait)
    return .flag true
  | .mention subject => Fault.refuse (scope.background ++ subject.constantFaults scope) (.flag true)
  | .adapts direction subject => subject.adapts scope direction
  | .matchEmpty subject => subject.matchEmpty scope
  | .layout subject => scope.conclude do
    let form ← subject.normalize scope
    Checked.note .formation (form.unmet scope.limit .sized)
    return .layout ⟨0, 1, false⟩
  | .forge attempt => do
    Fault.refuse scope.background ()
    attempt.answer
  | .generic function => function.answer scope

end TypeLists
