import TypeLists.Normalization

/-! Types in the signature of a function: a type is reduced first, and only its normal form is held
against the rules of its formers. -/

namespace TypeLists

/-- A type in a signature. -/
structure Signature where
  /-- The normal form of the type. -/
  form : Form
  /-- The faults of reducing the type, without which its values are looked at. -/
  reduction : List Fault
  /-- The faults of the rules that the normal form breaks. -/
  formation : List Fault

/-- Read a type with its findings as part of a signature. -/
def Signature.ofChecked (limit : Nat) (checked : Checked Form) : Signature :=
  -- Nothing more is asked of a type with a faulty constant, or after too deep a proof.
  let constants := Finding.faultsAt [.reported, .evaluation] checked.findings
  let projections := Finding.cutOff (Finding.faultsAt [.projection] checked.findings)
  let malformations := checked.value.malformations limit
  if !constants.isEmpty then ⟨checked.value, constants, []⟩
  else if .tooDeep ∈ projections ++ malformations then ⟨checked.value, [.tooDeep], []⟩
  else ⟨checked.value, projections, malformations⟩

/-- All faults of a type in a signature. -/
def Signature.faults (signature : Signature) : List Fault :=
  signature.reduction ++ signature.formation

end TypeLists
