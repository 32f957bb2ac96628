import TypeLists.Failure

/-! What can be wrong with a program, and which of the faults found in one body come to be reported. -/

namespace TypeLists

/-- What is wrong with a part of a program. -/
inductive Fault where
  /-- A type breaks a rule. -/
  | illTyped
  /-- A pointer is more than the address that a rule demands. -/
  | mismatched
  /-- A reference may outlive a parameter of the type that it refers to. -/
  | outlives
  /-- An alias stands for a type that contains the alias. -/
  | cyclic
  /-- A minus sign stands before a number that cannot be negative. -/
  | unsignedMinus
  /-- The proof that a rule is met is deeper than the limit. -/
  | tooDeep
  /-- A constant fails. -/
  | failed (failure : Failure)
  deriving DecidableEq

/-- The failure of a constant, if that is the fault. -/
def Fault.failure? : Fault → Option Failure
  -- The other faults concern types.
  | failed failure => some failure
  | _ => none

/-- At which stage of the work on a body a fault comes up. -/
inductive Stage where
  /-- While the expression itself, or a constant written in it, is checked. -/
  | reported
  /-- When a constant that a type carries is evaluated. -/
  | evaluation
  /-- When a projection is reduced. -/
  | projection
  /-- When the parts of a type are held against the rules of their formers. -/
  | formation
  /-- When lifetimes are compared, which is done for bodies without other faults. -/
  | lifetimes
  deriving DecidableEq

/-- A fault with the stage at which it comes up. -/
structure Finding where
  stage : Stage
  fault : Fault
  deriving DecidableEq

namespace Finding

/-- The faults that came up at one of some stages. -/
def faultsAt (stages : List Stage) (findings : List Finding) : List Fault :=
  (findings.filter fun finding => finding.stage ∈ stages).map Finding.fault

/-- Where a proof is too deep, nothing else that is found at the same stages is reported. -/
def cutOff (faults : List Fault) : List Fault :=
  if .tooDeep ∈ faults then [.tooDeep] else faults

/-- The faults that are reported of a body. -/
def reported (findings : List Finding) : List Fault :=
  -- Each stage is entered only if the work came so far.
  let faults := faultsAt [.reported, .evaluation] findings ++
    cutOff (faultsAt [.projection, .formation] findings)
  if faults.isEmpty then faultsAt [.lifetimes] findings else faults

end Finding

end TypeLists
