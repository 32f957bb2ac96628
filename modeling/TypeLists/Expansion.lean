/-! The expansion of literals: a sequence of steps that share one limit on their depth, which is
halved whenever a step is refused. -/

namespace TypeLists

/-- Why a literal is refused. -/
inductive LiteralError where
  /-- No rule accepts the tokens. -/
  | noRule
  /-- The literal stands deeper than the limit allows. -/
  | recursionLimit
  deriving DecidableEq

/-- The state of an expansion. -/
structure Expansion where
  /-- The depth that steps may reach. -/
  limit : Nat
  /-- A literal matched no rule. -/
  unmatched : Bool
  /-- A step was refused because of its depth. -/
  refused : Bool
  deriving DecidableEq

namespace Expansion

/-- The state before the first step. -/
def start (limit : Nat) : Expansion := ⟨limit, false, false⟩

/-- The error that an expansion amounts to, if any. -/
def error? (state : Expansion) : Option LiteralError :=
  -- A literal without a rule is reported even where another one is too deep.
  if state.unmatched then some .noRule else if state.refused then some .recursionLimit else none

end Expansion

/-- A part of an expansion that makes a result. -/
abbrev Expanding (result : Type) := StateM Expansion result

namespace Expanding

variable {result : Type}

/-- Take a step at a depth, or leave a substitute where the depth is not allowed. -/
def step (depth : Nat) (substitute : result) (action : Expanding result) : Expanding result :=
  -- A refusal leaves half of the limit to all later steps.
  fun state =>
    if depth < state.limit then action state
    else (substitute, { state with limit := state.limit / 2, refused := true })

/-- Leave a substitute where no rule applies. -/
def mismatch (substitute : result) : Expanding result := fun state =>
  (substitute, { state with unmatched := true })

/-- The result of an expansion from its start, if no step of it went wrong. -/
def run (limit : Nat) (action : Expanding result) : Except LiteralError result :=
  match action (Expansion.start limit) with
  | (result, state) =>
    match state.error? with
    | some error => .error error
    | none => .ok result

end Expanding

end TypeLists
