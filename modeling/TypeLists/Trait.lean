import TypeLists.Form.Declared
import TypeLists.Form.Formula
import TypeLists.Form.Marker

/-! The traits that a form may implement, and how deep the proofs go. -/

namespace TypeLists

/-- A trait that a form may implement. -/
inductive Trait where
  | list (kind : ListKind)
  | boolExpr
  /-- The trait of delayed types. -/
  | eval
  /-- The trait of choices with a delayed type to choose. -/
  | select
  | sized
  | auto (trait : AutoTrait)
  | declared (trait : DeclaredTrait)
  deriving DecidableEq

/-- The trait that a bound demands. -/
def Bound.trait : Bound → Trait
  | boolExpr => .boolExpr
  | list kind => .list kind

/-- The form implements a trait. -/
def Form.implements (form : Form) : Trait → Bool
  -- Each trait has rules of its own.
  | .list kind => (form.length? kind).isSome
  | .boolExpr => form.formula?.isSome
  | .eval => form.output?.isSome
  | .select => form.select?.isSome
  | .sized => form.sized
  | .auto trait => form.auto trait
  | .declared trait => form.declared trait

/-- How deep the proof goes that a form implements a trait, or the search for one. -/
def Form.proofDepth (form : Form) : Trait → Nat
  -- The question itself is the first level.
  | .list kind => form.listDepth kind
  | .boolExpr => form.formulaDepth
  | .eval => 1
  | .select => 2
  | .sized => form.sizedDepth
  | .auto trait => form.autoDepth trait
  | .declared trait => form.declaredDepth trait

end TypeLists
