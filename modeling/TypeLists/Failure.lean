/-! The ways in which evaluating a constant fails, and the text that reports them. -/

namespace TypeLists

/-- Why the evaluation of a constant stopped. -/
inductive Failure where
  /-- The value of a broken expression was asked for. -/
  | broken (index : Nat)
  /-- The constant gives up on purpose. -/
  | panic (index : Nat)
  /-- An arithmetic result does not fit its width. -/
  | overflow
  /-- A quotient by zero. -/
  | divideByZero
  /-- A remainder by zero. -/
  | remainderByZero
  deriving DecidableEq

namespace Failure

/-- The text of one failure. -/
def message : Failure → String
  -- Only deliberate failures carry the number they were written with.
  | broken index => "Broken " ++ toString index
  | panic index => "panic " ++ toString index
  | overflow => "overflow"
  | divideByZero => "divide by zero"
  | remainderByZero => "remainder by zero"

/-- Put a text into its place in a strictly increasing list, unless it stands there already. -/
def insertText (text : String) : List String → List String
  -- The first entry that is not smaller decides.
  | [] => [text]
  | head :: rest =>
    if text < head then text :: head :: rest
    else if text = head then head :: rest
    else head :: insertText text rest

/-- The distinct messages of some failures, in increasing order. -/
def messages (failures : List Failure) : List String :=
  -- Inserting one by one sorts and removes repetitions at once.
  failures.foldr (fun failure texts => insertText failure.message texts) []

/-- The one text that reports some failures together. -/
def report (failures : List Failure) : String :=
  -- Neither the order of the failures nor their number of occurrences shows.
  String.intercalate "; " (messages failures)

end Failure

end TypeLists
