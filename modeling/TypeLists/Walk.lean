import TypeLists.Form.Formula
import TypeLists.Form.Name

/-! Walks over lists: elements are put in front, lists are nested, and the latest change can be
undone. -/

namespace TypeLists

namespace Walk

/-- A change of the current list. -/
inductive Move where
  /-- Put a boolean in front of a boolean list. -/
  | bool (value : Bool)
  /-- Put a type in front of a type list. -/
  | type (element : Form)
  /-- Replace the list by the type list that has it as its only element. -/
  | nest
  deriving DecidableEq

/-- The list after one change. -/
def Move.apply : Move → Form → Form
  -- Every change adds one node in front.
  | .bool value, list => .boolCons (some value) list
  | .type element, list => .cons element list
  | .nest, list => .cons list .nil

/-- A step of a walk. -/
inductive Step where
  | move (move : Move)
  /-- Undo the latest change. -/
  | pop
  /-- Go back to the empty list and forget all changes. -/
  | clear
  /-- Remember the current list. -/
  | mark
  deriving DecidableEq

/-- Why a step is refused. -/
inductive Error where
  /-- There is no change to undo. -/
  | empty
  /-- As many changes are in effect as the walk allows. -/
  | full
  deriving DecidableEq

/-- The code under which a refused step is reported. -/
def Error.code : Error → String
  | empty => "Empty"
  | full => "Full"

/-- What a step shows of the current list. -/
structure Report where
  length : Nat
  /-- The value of the type guard of the list. -/
  guard : Bool
  /-- The current list is the one that was marked. -/
  sameAsMark : Bool
  name : String
  deriving DecidableEq

end Walk

/-- The state of a walk. -/
structure Walk where
  /-- The changes in effect, latest first. -/
  moves : List Walk.Move
  /-- The marked list. -/
  mark : Form

namespace Walk

/-- The empty list of a kind. -/
def empty : ListKind → Form
  | .types => .nil
  | .bools => .boolNil

/-- How many changes may be in effect at once. -/
def capacity : ListKind → Nat
  | .types => 4
  | .bools => 6

/-- A walk before its first step. -/
def start (kind : ListKind) : Walk := ⟨[], empty kind⟩

/-- The current list. -/
def current (kind : ListKind) (walk : Walk) : Form :=
  -- The changes in effect are made again from the empty list on.
  walk.moves.foldr Move.apply (empty kind)

/-- The state after a step. -/
def step (kind : ListKind) (walk : Walk) : Step → Except Error Walk
  -- A refused step changes nothing.
  | .move move =>
    if walk.moves.length < capacity kind then .ok { walk with moves := move :: walk.moves }
    else .error .full
  | .pop =>
    match walk.moves with
    | [] => .error .empty
    | _ :: rest => .ok { walk with moves := rest }
  | .clear => .ok { walk with moves := [] }
  | .mark => .ok { walk with mark := walk.current kind }

/-- What is shown of the current list. -/
def report (kind : ListKind) (walk : Walk) : Report where
  -- No walk comes near the depth at which a proof is refused.
  length := (walk.current kind).length kind
  guard := true
  sameAsMark := walk.current kind = walk.mark
  name := (walk.current kind).name

/-- The reports of some steps. -/
def run (kind : ListKind) : Walk → List Step → List (Except Error Report)
  -- A refused step is reported, and the walk goes on from the state before it.
  | _, [] => []
  | walk, next :: rest =>
    match walk.step kind next with
    | .ok moved => .ok (moved.report kind) :: moved.run kind rest
    | .error error => .error error :: walk.run kind rest

end Walk

end TypeLists
