import TypeLists.Checked
import TypeLists.Constant.Item
import TypeLists.Requirement
import TypeLists.Ty

/-! The normal form of a written type, with what is found in its parts: names are looked up, literals
become chains, projections are reduced and constants are evaluated. -/

namespace TypeLists

/-- What the names in a written type stand for, and how the type is read. -/
structure Scope where
  /-- How deep proofs may go. -/
  limit : Nat
  /-- How long the references live that are written in the type itself. -/
  lifetime : Lifetime
  /-- The normal form of a name, with what is found in the type it stands for. -/
  meaning : TypeName → Checked Form
  /-- The faults in the constants of all aliases, which are checked even where nothing uses them. -/
  background : List Fault

/-- A form whose outermost former is held against its rules. -/
def Form.formed (limit : Nat) (form : Form) : Checked Form := do
  Checked.note .formation (form.malformed limit)
  return form

/-- The result of a projection that needs a trait of its subject. -/
def Form.projected (limit : Nat) (trait : Trait) (result? : Option Form) (subject : Form) :
    Checked Form := do
  -- Nothing is reduced where something was lost.
  Checked.note .projection (subject.unmet limit trait)
  return if subject.settled then result?.getD .lost else .lost

/-- A former with one parameter, applied to a form. -/
def Form.wrapped (scope : Scope) (wrapper : Wrapper) (inner : Form) : Checked Form := do
  -- A parameter may live shorter than a reference to it.
  Checked.note .lifetimes (if wrapper.borrows && !inner.closed then [.outlives] else [])
  Form.formed scope.limit (.wrap (wrapper.living scope.lifetime) inner)

/-- The faults of naming a form in a constant. -/
def Mention.unmet (limit : Nat) (how : Mention) (subject : Form) : List Fault :=
  -- The guards of a type ask for nothing, and those of an expression for what they name.
  match how with
  | .value => subject.unmet limit .boolExpr
  | .boolGuard | .eagerBool => subject.unguardable limit
  | .typeGuard | .eagerType => []

/-- Evaluate a constant that a type carries, which has no value if it fails. -/
def Constant.settle (constant : Checked (Constant Form)) : Checked (Option Bool) :=
  -- The constant is a body of its own, and a faulty one is not evaluated at all.
  match constant.faults with
  | [] =>
    match constant.value.asItem Form.reading with
    | .ok value => .clean (some value)
    | .error failure => ⟨none, [⟨.evaluation, .failed failure⟩]⟩
  | faults => ⟨none, faults.map fun fault => ⟨.reported, fault⟩⟩

mutual

/-- The normal form of a type, with what is found in all its parts. -/
def Ty.normalize (scope : Scope) : Ty → Checked Form
  -- Every part is looked at, also one that a projection drops.
  | .atom leaf => return .atom leaf
  | .wrap wrapper inner => do
    let inner ← inner.normalize scope
    Form.wrapped scope wrapper inner
  | .cons head tail => do
    let head ← head.normalize scope
    let tail ← tail.normalize scope
    Form.formed scope.limit (.cons head tail)
  | .combine combinator left right => do
    let left ← left.normalize scope
    let right ← right.normalize scope
    Form.formed scope.limit (.combine combinator left right)
  | .choice condition positive negative => do
    let condition ← condition.normalize scope
    let positive ← positive.normalize scope
    let negative ← negative.normalize scope
    Form.formed scope.limit (.choice condition positive negative)
  | .tuple members => do
    let members ← Ty.normalizeAll scope members
    Form.formed scope.limit (.tuple members)
  | .function arguments result => do
    let arguments ← Ty.normalizeAll scope arguments
    let result ← result.normalize scope
    Form.formed scope.limit (.function arguments result)
  | .bool constant => do
    let value ← Constant.settle (constant.normalize scope)
    Form.formed scope.limit (.bool value)
  | .boolCons constant tail => do
    let value ← Constant.settle (constant.normalize scope)
    let tail ← tail.normalize scope
    Form.formed scope.limit (.boolCons value tail)
  | .list tokens => Ty.normalizeTokens scope tokens
  | .boolList tokens => Constant.normalizeTokens scope tokens
  | .output subject => do
    let subject ← subject.normalize scope
    subject.projected scope.limit .eval subject.output?
  | .select subject => do
    let subject ← subject.normalize scope
    subject.projected scope.limit .select subject.select?
  | .named name => scope.meaning name

/-- The normal forms of some types, with what is found in all their parts. -/
def Ty.normalizeAll (scope : Scope) : List Ty → Checked (List Form)
  -- The types follow one another.
  | [] => return []
  | head :: rest => do
    let head ← head.normalize scope
    let rest ← Ty.normalizeAll scope rest
    return head :: rest

/-- The chain of the elements of a type list. -/
def Ty.normalizeTokens (scope : Scope) : List (Token Ty) → Checked Form
  -- Commas only separate.
  | [] => return .nil
  | .comma :: rest => Ty.normalizeTokens scope rest
  | .element head :: rest => do
    let head ← head.normalize scope
    let tail ← Ty.normalizeTokens scope rest
    Form.formed scope.limit (.cons head tail)

/-- The chain of the elements of a boolean list. -/
def Constant.normalizeTokens (scope : Scope) : List (Token (Constant Ty)) → Checked Form
  -- Every element is a constant of its own.
  | [] => return .boolNil
  | .comma :: rest => Constant.normalizeTokens scope rest
  | .element head :: rest => do
    let value ← Constant.settle (head.normalize scope)
    let tail ← Constant.normalizeTokens scope rest
    Form.formed scope.limit (.boolCons value tail)

/-- A constant over normal forms, with what is found in the types that it names. -/
def Constant.normalize (scope : Scope) : Constant Ty → Checked (Constant Form)
  -- Types are checked in every part of the expression, also one that control never reaches.
  | .literal value => return .literal value
  | .not operand => do
    let operand ← operand.normalize scope
    return .not operand
  | .connect connective left right => do
    let left ← left.normalize scope
    let right ← right.normalize scope
    return .connect connective left right
  | .choose condition positive negative => do
    let condition ← condition.normalize scope
    let positive ← positive.normalize scope
    let negative ← negative.normalize scope
    return .choose condition positive negative
  | .compare comparison kind left right => do
    let left ← left.normalize scope
    let right ← right.normalize scope
    Checked.note .reported
      (if !kind.signed && (left.hasMinus || right.hasMinus) then [.unsignedMinus] else [])
    return .compare comparison kind left right
  | .panic index => return .panic index
  | .mention how subject => do
    let subject ← subject.normalize scope
    Checked.note .formation (how.unmet scope.limit subject)
    return .mention how subject

/-- An integer expression over normal forms, with what is found in the lists that it measures. -/
def Arith.normalize (scope : Scope) : Arith Ty → Checked (Arith Form)
  -- What is measured has to be a list of the named kind.
  | .literal minus magnitude => return .literal minus magnitude
  | .least => return .least
  | .greatest => return .greatest
  | .negate operand => do
    let operand ← operand.normalize scope
    return .negate operand
  | .apply operation left right => do
    let left ← left.normalize scope
    let right ← right.normalize scope
    return .apply operation left right
  | .length kind list => do
    let list ← list.normalize scope
    Checked.note .formation (list.unmet scope.limit (.list kind))
    return .length kind list

end

/-- The faults in the constants that a type carries, without evaluating them. -/
def Ty.constantFaults (scope : Scope) (type : Ty) : List Fault :=
  Finding.faultsAt [.reported] (type.normalize scope).findings

namespace Scope

/-- The meaning of a name in the type that it stands for. -/
def circular (_ : TypeName) : Checked Form := ⟨.lost, [⟨.reported, .cyclic⟩]⟩

/--
What some aliases stand for, with a bound on how deep they refer to one another.

An alias is out of scope in its own body, so the number of aliases is always deep enough.
-/
def aliases (limit : Nat) : Nat → List (String × Ty) → TypeName → Checked Form
  -- Every use of an alias normalizes its body anew, and its references live as long as the program.
  | 0, _, name => circular name
  | depth + 1, definitions, .alias name =>
    match definitions.lookup name with
    | some body =>
      let others := definitions.filter fun definition => definition.1 ≠ name
      body.normalize ⟨limit, .static, aliases limit depth others, []⟩
    | none => circular (.alias name)
  | _ + 1, _, .param param => circular (.param param)

/-- The scope of some type aliases. -/
def ofAliases (limit : Nat) (definitions : List (String × Ty)) : Scope :=
  let meaning := aliases limit definitions.length definitions
  { limit
    lifetime := .static
    meaning
    background := definitions.flatMap fun definition =>
      Finding.faultsAt [.reported] (meaning (.alias definition.1)).findings }

/-- The scope in which the parameters of a generic function stand for the given forms. -/
def withParams (scope : Scope) (expression type : Form) : Scope :=
  -- The forms are taken as they are, since their faults belong to the call.
  { scope with
    meaning := fun name =>
      match name with
      | .param .expression => .clean expression
      | .param .type => .clean type
      | .alias name => scope.meaning (.alias name) }

/-- The scope in which the references of a type live as long as its place demands. -/
def varying (scope : Scope) : Scope :=
  { scope with lifetime := .varying }

end Scope

end TypeLists
