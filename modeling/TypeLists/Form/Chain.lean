import TypeLists.Form

/-! Which forms are lists, and how long they are. -/

namespace TypeLists

namespace Form

/-- The length of a list of a kind, if the form is one. -/
def length? : ListKind → Form → Option Nat
  -- The heads play no part, and a parameter that is known to be a list ends the known part.
  | .types, .atom .nil => some 0
  | .types, .cons _ tail => (tail.length? .types).map (· + 1)
  | .bools, .atom .boolNil => some 0
  | .bools, .boolCons _ tail => (tail.length? .bools).map (· + 1)
  | kind, .hole cause => if cause.meets (.list kind) then some 0 else none
  | _, _ => none

/-- How deep the proof goes that a form is a list of a kind, or the search for one. -/
def listDepth : ListKind → Form → Nat
  -- Every node is a level of its own.
  | .types, .cons _ tail => tail.listDepth .types + 1
  | .bools, .boolCons _ tail => tail.listDepth .bools + 1
  | _, _ => 1

end Form

end TypeLists
