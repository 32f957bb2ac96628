import TypeLists.Answer

/-! Generic functions, which are checked once under their bounds and evaluated for every call. -/

namespace TypeLists

/-- The outlook of a generic function on forms with parameters in them. -/
def Form.outlook : Outlook Form where
  -- A constant that is written inline belongs to the function, and waits for its parameters.
  outcome? how form :=
    if how.isInline || !form.closed then none else some (Form.reading.outcome how form)
  length? kind form := if form.closed then some (form.length kind) else none

/-- A generic function with one boolean expression for a body, and its calls. -/
structure Generic where
  /-- The expression that a call evaluates. -/
  body : Constant Ty
  /-- The types given to the two parameters, call by call. -/
  calls : List (Ty × Ty)
  /-- What the function demands of its first parameter. -/
  bound : Option Bound
  /-- The condition under which the body runs, and without which the call is true. -/
  under : Option Bool

namespace Generic

/-- The expression that a call evaluates, with its condition. -/
def guarded (function : Generic) : Constant Ty :=
  -- The condition keeps the body from running, and not from being evaluated where it mentions.
  match function.under with
  | none => function.body
  | some condition => .choose (.literal condition) function.body (.literal true)

/-- The body of the function on its own, where all that is known of its parameters is its bound. -/
def schema (scope : Scope) (function : Generic) : Checked (Constant Form) :=
  -- The first parameter is sized, and nothing is known of the second.
  function.guarded.normalize
    (scope.withParams (.hole (.param true function.bound)) (.hole (.param false none)))

/-- The forms that one call gives to the parameters. -/
def argumentsOf (scope : Scope) (function : Generic) (call : Ty × Ty) : Checked (Form × Form) := do
  -- The first one has to be sized and to meet the bound.
  let expression ← call.1.normalize scope
  let type ← call.2.normalize scope
  Checked.note .formation (expression.unmet scope.limit .sized)
  Checked.note .formation
    ((function.bound.map fun bound => expression.unmet scope.limit bound.trait).getD [])
  return (expression, type)

/-- The forms that all calls give to the parameters. -/
def arguments (scope : Scope) (function : Generic) :
    List (Ty × Ty) → Checked (List (Form × Form))
  -- All calls stand in one body.
  | [] => return []
  | call :: rest => do
    let first ← function.argumentsOf scope call
    let others ← function.arguments scope rest
    return first :: others

/-- The expression of one call, in which the parameters stand for the given forms. -/
def instantiate (scope : Scope) (function : Generic) (forms : Form × Form) : Constant Form :=
  -- The function is not checked again for a call.
  (function.guarded.normalize (scope.withParams forms.1 forms.2)).value

/-- The failures that are found in the function before it is called. -/
def foreseen (schema : Checked (Constant Form)) (calls : List Fault) : List Fault :=
  -- A function with faults is not looked at any further, nor any function after too deep a proof.
  if schema.faults.isEmpty && .tooDeep ∉ calls then
    (schema.value.preview Form.outlook).failures.map .failed
  else []

/-- The values of all calls. -/
def answer (scope : Scope) (function : Generic) : Answer := do
  -- One failing call fails the program.
  let schema := function.schema scope
  let calls := function.arguments scope function.calls
  let forms ← Fault.refuse (scope.background ++ schema.faults ++ calls.faults ++
    foreseen schema calls.faults) calls.value
  let constants := forms.map (function.instantiate scope)
  return .flags (← Refusal.ofBody (Constant.asBodies Form.reading constants))

end Generic

end TypeLists
