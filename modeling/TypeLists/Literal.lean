import TypeLists.Expansion

/-! Literals are read by two rules: an empty one ends the chain, and any other gives its first
element and a literal of the remaining ones, one level deeper. -/

namespace TypeLists

/-- A token of a literal. -/
inductive Token (element : Type) where
  | comma
  | element (value : element)
  deriving DecidableEq

namespace Literal

/-- What a rule makes of the tokens of a literal. -/
inductive Step (element : Type) where
  /-- The chain ends. -/
  | finish
  /-- The chain goes on with an element, and with a literal of the remaining tokens. -/
  | emit (head : element) (rest : List (Token element))

variable {element result : Type}

/-- The elements behind the first: each stands after a comma, and one more comma may end them. -/
def following? : List (Token element) → Option (List element)
  -- A comma is followed by an element or by the end.
  | [] => some []
  | [.comma] => some []
  | .comma :: .element head :: rest => (following? rest).map (head :: ·)
  | _ => none

/-- Elements written with a single comma between neighbours. -/
def separated : List element → List (Token element)
  -- The last element has no comma behind it.
  | [] => []
  | [last] => [.element last]
  | head :: rest => .element head :: .comma :: separated rest

/-- Apply the rule that accepts the tokens, if one does. -/
def step? : List (Token element) → Option (Step element)
  -- The remaining elements are passed on in another comma layout.
  | [] => some .finish
  | .element head :: rest => (following? rest).map fun others => .emit head (separated others)
  | .comma :: _ => none

/--
Read a literal step by step from a depth on, with a bound on the number of steps.

Every element is expanded one level below the step that emits it, and before the next step.
-/
def unroll : Nat → Nat → List (Token (Nat → Expanding result)) → Expanding (List result)
  -- Neither the tokens nor the elements of a refused literal are looked at.
  | 0, _, _ => return []
  | steps + 1, depth, tokens =>
    Expanding.step depth [] do
      match step? tokens with
      | none => Expanding.mismatch []
      | some .finish => return []
      | some (.emit head rest) =>
        let first ← head (depth + 1)
        let others ← unroll steps (depth + 1) rest
        return first :: others

/-- The elements of a literal at a depth. -/
def elements (tokens : List (Token (Nat → Expanding result))) (depth : Nat) :
    Expanding (List result) :=
  -- Every step but the last uses up a token.
  unroll (tokens.length + 1) depth tokens

end Literal

end TypeLists
