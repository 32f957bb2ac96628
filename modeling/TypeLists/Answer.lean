import TypeLists.Constant.Body
import TypeLists.Expansion
import TypeLists.Normalization

/-! What a query answers: a value, or the reason why its program is refused. -/

namespace TypeLists

/-- Why a program is refused, or stops. -/
inductive Refusal where
  /-- A literal matches no rule. -/
  | noRule
  /-- A literal stands deeper than the limit allows. -/
  | recursionLimit
  /-- A match without arms leaves values over. -/
  | inhabited
  /-- A pointer is more than an address. -/
  | mismatched
  /-- A type breaks a rule. -/
  | illTyped
  /-- A reference may outlive what it refers to. -/
  | outlives
  /-- An alias contains itself. -/
  | cyclic
  /-- A number that cannot be negative has a minus sign. -/
  | unsignedMinus
  /-- Constants fail, as the report says. -/
  | constant (report : String)
  /-- A proof is deeper than the limit allows. -/
  | tooDeep
  /-- A lifetime would have to change in the wrong way. -/
  | lifetime
  /-- The program is accepted and stops when it runs. -/
  | panic (message : String)
  /-- A private name is used. -/
  | privateName
  /-- A trait of another library is implemented for a type of another library. -/
  | foreignImplementation
  /-- A trait is implemented twice for one type. -/
  | conflictingImplementation
  /-- A type is built that has no constructor. -/
  | noConstructor
  /-- A private field is read. -/
  | privateField
  deriving DecidableEq

namespace Refusal

/-- The code under which a refusal is reported. -/
def code : Refusal → String
  | noRule => "NoMacroRule"
  | recursionLimit => "RecursionLimit"
  | inhabited => "E0004"
  | mismatched => "E0271"
  | illTyped => "E0277"
  | outlives => "E0310"
  | cyclic => "E0391"
  | unsignedMinus => "E0600"
  | constant _ => "E0080"
  | tooDeep => "E0275"
  | lifetime => "Lifetime"
  | panic _ => "Panic"
  | privateName => "E0603"
  | foreignImplementation => "E0117"
  | conflictingImplementation => "E0119"
  | noConstructor => "E0423"
  | privateField => "E0616"

/-- The text that is reported with a refusal, if it has one. -/
def message? : Refusal → Option String
  -- Only failed evaluations come with a text.
  | constant report => some report
  | panic message => some message
  | _ => none

/-- The refusal of a literal. -/
def ofLiteral : LiteralError → Refusal
  | .noRule => noRule
  | .recursionLimit => recursionLimit

/-- The refusal that some faults amount to, if there are any. -/
def ofFaults? (faults : List Fault) : Option Refusal :=
  -- Broken rules go before failing constants, and too deep a proof counts only where it is alone.
  if .mismatched ∈ faults then some .mismatched
  else if .illTyped ∈ faults then some .illTyped
  else if .outlives ∈ faults then some .outlives
  else if .cyclic ∈ faults then some .cyclic
  else if .unsignedMinus ∈ faults then some .unsignedMinus
  else
    match faults.filterMap Fault.failure? with
    | [] => if .tooDeep ∈ faults then some .tooDeep else none
    | failures => some (.constant (Failure.report failures))

end Refusal

/-- The value of a query, unless faults refuse its program. -/
def Fault.refuse {result : Type} (faults : List Fault) (value : result) : Except Refusal result :=
  -- Faults are judged together, wherever they were found.
  match Refusal.ofFaults? faults with
  | some refusal => .error refusal
  | none => .ok value

/-- The value of a checked body, unless its faults or those of the background refuse the program. -/
def Scope.conclude {result : Type} (scope : Scope) (checked : Checked result) :
    Except Refusal result :=
  Fault.refuse (scope.background ++ checked.faults) checked.value

/-- The refusal of a function body that fails. -/
def Refusal.ofBody {result : Type} (outcome : Except Constant.BodyFailure result) :
    Except Refusal result :=
  -- A refused body is a failing constant of the program, a stopped one is a failure of its run.
  outcome.mapError fun failure =>
    match failure with
    | .refused failures => .constant (Failure.report failures)
    | .stopped failure => .panic failure.message

/-- The size and alignment of a type, and whether dropping it runs code. -/
structure Layout where
  size : Nat
  alignment : Nat
  needsDrop : Bool
  deriving DecidableEq

/-- The value that a query answers. -/
inductive Value where
  | flag (value : Bool)
  | flags (values : List Bool)
  | number (value : Nat)
  | text (value : String)
  | layout (value : Layout)
  deriving DecidableEq

/-- What a query answers. -/
abbrev Answer := Except Refusal Value

end TypeLists
