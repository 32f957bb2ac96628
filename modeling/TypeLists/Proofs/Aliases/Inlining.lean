import TypeLists.Proofs.Aliases.Constants
import TypeLists.Proofs.Form.Living

/-! Aliases written out: a query with the bodies of aliases in place of their names, and what these bodies are
read as where no alias is known. -/

namespace TypeLists

mutual

/-- A type with every name in its own place is the type. -/
theorem Ty.substitute_named : ∀ type : Ty, type.substitute .named = type
  | .atom _ | .named _ => rfl
  | .wrap _ inner => by rw [Ty.substitute, inner.substitute_named]
  | .cons head tail => by rw [Ty.substitute, head.substitute_named, tail.substitute_named]
  | .combine _ left right => by rw [Ty.substitute, left.substitute_named, right.substitute_named]
  | .choice condition positive negative => by
    rw [Ty.substitute, condition.substitute_named, positive.substitute_named, negative.substitute_named]
  | .tuple members => by rw [Ty.substitute, Ty.substituteAll_named members]
  | .function arguments result => by
    rw [Ty.substitute, Ty.substituteAll_named arguments, result.substitute_named]
  | .bool constant => by rw [Ty.substitute, constant.substitute_named]
  | .boolCons constant tail => by rw [Ty.substitute, constant.substitute_named, tail.substitute_named]
  | .list tokens => by rw [Ty.substitute, Ty.substituteTokens_named tokens]
  | .boolList tokens => by rw [Ty.substitute, Constant.substituteTokens_named tokens]
  | .output subject => by rw [Ty.substitute, subject.substitute_named]
  | .select subject => by rw [Ty.substitute, subject.substitute_named]

theorem Ty.substituteAll_named : ∀ types : List Ty, Ty.substituteAll .named types = types
  | [] => rfl
  | head :: rest => by rw [Ty.substituteAll, head.substitute_named, Ty.substituteAll_named rest]

theorem Ty.substituteTokens_named : ∀ tokens : List (Token Ty), Ty.substituteTokens .named tokens = tokens
  | [] => rfl
  | .comma :: rest => by rw [Ty.substituteTokens, Ty.substituteTokens_named rest]
  | .element head :: rest => by
    rw [Ty.substituteTokens, head.substitute_named, Ty.substituteTokens_named rest]

/-- A constant with every name in its own place is the constant. -/
theorem Constant.substitute_named : ∀ constant : Constant Ty, constant.substitute .named = constant
  | .literal _ | .panic _ => rfl
  | .not operand => by rw [Constant.substitute, operand.substitute_named]
  | .connect _ left right => by rw [Constant.substitute, left.substitute_named, right.substitute_named]
  | .choose condition positive negative => by
    rw [Constant.substitute, condition.substitute_named, positive.substitute_named, negative.substitute_named]
  | .compare _ _ left right => by rw [Constant.substitute, left.substitute_named, right.substitute_named]
  | .mention _ subject => by rw [Constant.substitute, subject.substitute_named]

theorem Arith.substitute_named : ∀ number : Arith Ty, number.substitute .named = number
  | .literal _ _ | .least | .greatest => rfl
  | .negate operand => by rw [Arith.substitute, operand.substitute_named]
  | .apply _ left right => by rw [Arith.substitute, left.substitute_named, right.substitute_named]
  | .length _ list => by rw [Arith.substitute, list.substitute_named]

theorem Constant.substituteTokens_named : ∀ tokens : List (Token (Constant Ty)),
    Constant.substituteTokens .named tokens = tokens
  | [] => rfl
  | .comma :: rest => by rw [Constant.substituteTokens, Constant.substituteTokens_named rest]
  | .element head :: rest => by
    rw [Constant.substituteTokens, head.substitute_named, Constant.substituteTokens_named rest]

end

/-- Two choices of types in place of names agree in the names that are used. -/
def GivenAlike (given given' : TypeName → Ty) (uses : TypeName → List (Option Mention)) : Prop :=
  ∀ name, uses name ≠ [] → given name = given' name

section GivenAlike

variable {given given' : TypeName → Ty} {uses uses' : TypeName → List (Option Mention)}

theorem givenAlike_append_iff :
    (GivenAlike given given' fun name => uses name ++ uses' name) ↔
      GivenAlike given given' uses ∧ GivenAlike given given' uses' := by
  simp only [GivenAlike, Ne, List.append_eq_nil_iff, not_and_or, or_imp, forall_and]

mutual

/-- What stands in place of the names that a type does not use plays no part. -/
theorem Ty.substitute_congr : ∀ type : Ty, (GivenAlike given given' fun name => type.uses name) →
    type.substitute given = type.substitute given'
  | .atom _, _ => rfl
  | .wrap _ inner, same => by rw [Ty.substitute, Ty.substitute, inner.substitute_congr same]
  | .cons head tail, same => by
    obtain ⟨first, second⟩ := givenAlike_append_iff.mp same
    rw [Ty.substitute, Ty.substitute, head.substitute_congr first, tail.substitute_congr second]
  | .combine _ left right, same => by
    obtain ⟨first, second⟩ := givenAlike_append_iff.mp same
    rw [Ty.substitute, Ty.substitute, left.substitute_congr first, right.substitute_congr second]
  | .choice condition positive negative, same => by
    obtain ⟨first, others⟩ := givenAlike_append_iff.mp same
    obtain ⟨second, third⟩ := givenAlike_append_iff.mp others
    rw [Ty.substitute, Ty.substitute, condition.substitute_congr first, positive.substitute_congr second,
      negative.substitute_congr third]
  | .tuple members, same => by rw [Ty.substitute, Ty.substitute, Ty.substituteAll_congr members same]
  | .function arguments result, same => by
    obtain ⟨first, second⟩ := givenAlike_append_iff.mp same
    rw [Ty.substitute, Ty.substitute, Ty.substituteAll_congr arguments first, result.substitute_congr second]
  | .bool constant, same => by rw [Ty.substitute, Ty.substitute, constant.substitute_congr same]
  | .boolCons constant tail, same => by
    obtain ⟨first, second⟩ := givenAlike_append_iff.mp same
    rw [Ty.substitute, Ty.substitute, constant.substitute_congr first, tail.substitute_congr second]
  | .list tokens, same => by rw [Ty.substitute, Ty.substitute, Ty.substituteTokens_congr tokens same]
  | .boolList tokens, same => by
    rw [Ty.substitute, Ty.substitute, Constant.substituteTokens_congr tokens same]
  | .output subject, same => by rw [Ty.substitute, Ty.substitute, subject.substitute_congr same]
  | .select subject, same => by rw [Ty.substitute, Ty.substitute, subject.substitute_congr same]
  | .named name, same => same name (by simp [Ty.uses])

theorem Ty.substituteAll_congr : ∀ types : List Ty,
    (GivenAlike given given' fun name => Ty.allUses name types) → Ty.substituteAll given types = Ty.substituteAll given' types
  | [], _ => rfl
  | head :: rest, same => by
    obtain ⟨first, others⟩ := givenAlike_append_iff.mp same
    rw [Ty.substituteAll, Ty.substituteAll, head.substitute_congr first, Ty.substituteAll_congr rest others]

theorem Ty.substituteTokens_congr : ∀ tokens : List (Token Ty),
    (GivenAlike given given' fun name => Ty.tokenUses name tokens) →
      Ty.substituteTokens given tokens = Ty.substituteTokens given' tokens
  | [], _ => rfl
  | .comma :: rest, same => by
    rw [Ty.substituteTokens, Ty.substituteTokens, Ty.substituteTokens_congr rest same]
  | .element head :: rest, same => by
    obtain ⟨first, others⟩ := givenAlike_append_iff.mp same
    rw [Ty.substituteTokens, Ty.substituteTokens, head.substitute_congr first,
      Ty.substituteTokens_congr rest others]

theorem Constant.substitute_congr : ∀ constant : Constant Ty,
    (GivenAlike given given' fun name => constant.uses name) →
      constant.substitute given = constant.substitute given'
  | .literal _, _ | .panic _, _ => rfl
  | .not operand, same => by rw [Constant.substitute, Constant.substitute, operand.substitute_congr same]
  | .connect _ left right, same => by
    obtain ⟨first, second⟩ := givenAlike_append_iff.mp same
    rw [Constant.substitute, Constant.substitute, left.substitute_congr first, right.substitute_congr second]
  | .choose condition positive negative, same => by
    obtain ⟨first, others⟩ := givenAlike_append_iff.mp same
    obtain ⟨second, third⟩ := givenAlike_append_iff.mp others
    rw [Constant.substitute, Constant.substitute, condition.substitute_congr first,
      positive.substitute_congr second, negative.substitute_congr third]
  | .compare _ _ left right, same => by
    obtain ⟨first, second⟩ := givenAlike_append_iff.mp same
    rw [Constant.substitute, Constant.substitute, left.substitute_congr first, right.substitute_congr second]
  | .mention how subject, same => by
    rw [Constant.substitute, Constant.substitute, subject.substitute_congr fun name used => same name ?_]
    -- A name is used by the mention that it is the subject of, and otherwise by the subject.
    simp only [Constant.uses]
    split
    · exact List.cons_ne_nil _ _
    · exact used

theorem Arith.substitute_congr : ∀ number : Arith Ty, (GivenAlike given given' fun name => number.uses name) →
    number.substitute given = number.substitute given'
  | .literal _ _, _ | .least, _ | .greatest, _ => rfl
  | .negate operand, same => by rw [Arith.substitute, Arith.substitute, operand.substitute_congr same]
  | .apply _ left right, same => by
    obtain ⟨first, second⟩ := givenAlike_append_iff.mp same
    rw [Arith.substitute, Arith.substitute, left.substitute_congr first, right.substitute_congr second]
  | .length _ list, same => by rw [Arith.substitute, Arith.substitute, list.substitute_congr same]

theorem Constant.substituteTokens_congr : ∀ tokens : List (Token (Constant Ty)),
    (GivenAlike given given' fun name => Constant.tokenUses name tokens) →
      Constant.substituteTokens given tokens = Constant.substituteTokens given' tokens
  | [], _ => rfl
  | .comma :: rest, same => by
    rw [Constant.substituteTokens, Constant.substituteTokens, Constant.substituteTokens_congr rest same]
  | .element head :: rest, same => by
    obtain ⟨first, others⟩ := givenAlike_append_iff.mp same
    rw [Constant.substituteTokens, Constant.substituteTokens, head.substitute_congr first,
      Constant.substituteTokens_congr rest others]

end

end GivenAlike

/-- A query with every name in its own place is the query. -/
theorem Query.substitute_named (query : Query) : query.substitute .named = query := by
  cases query with
  | generic function =>
    obtain ⟨body, calls, bound, under⟩ := function
    simp only [substitute, Generic.substitute, Constant.substitute_named, Ty.substitute_named, Prod.mk.eta,
      List.map_id']
  | _ => simp only [substitute, Constant.substitute_named, Ty.substitute_named]

/--
The text that a name stands for: the body of an alias, in which the text of all aliases stands in place of their
names. The bound on how deep aliases refer to one another is spent like that of their meaning.
-/
def TypeName.inlined : Nat → List (String × Ty) → TypeName → Ty
  -- A name that is no alias stands for itself.
  | 0, _, name => .named name
  | depth + 1, definitions, .alias name =>
    match definitions.lookup name with
    | some body =>
      body.substitute (TypeName.inlined depth (definitions.filter fun definition => definition.1 ≠ name))
    | none => .named (.alias name)
  | _ + 1, _, .param which => .named (.param which)

namespace TypeName

/-- A parameter is no alias, and stands for itself. -/
theorem inlined_param (depth : Nat) (definitions : List (String × Ty)) (which : Param) :
    inlined depth definitions (.param which) = .named (.param which) := by
  cases depth <;> rfl

/-- Aliases out of scope stay as they are, however many levels there are. -/
theorem inlined_of_lookup_none {depth : Nat} {definitions : List (String × Ty)} {name : String}
    (missing : definitions.lookup name = none) :
    inlined depth definitions (.alias name) = .named (.alias name) := by
  cases depth with
  | zero => rfl
  | succ depth => simp only [inlined, missing]

/--
Among two collections of definitions, an alias is written out alike if the two agree in all names that
its body leads to.
-/
theorem inlined_congr {depth depth' : Nat} {definitions definitions' : List (String × Ty)}
    (reached : String → Prop) (levels : definitions.length ≤ depth) (levels' : definitions'.length ≤ depth')
    (closed : ∀ name body, reached name → definitions.lookup name = some body →
      ∀ other, body.uses (.alias other) ≠ [] → reached other)
    (same : ∀ name, reached name → definitions.lookup name = definitions'.lookup name) {name : String}
    (inside : reached name) :
    inlined depth definitions (.alias name) = inlined depth' definitions' (.alias name) := by
  -- The induction is on the levels, as it is for what the aliases stand for.
  induction depth generalizing depth' definitions definitions' name with
  | zero =>
    have none : definitions = [] := List.eq_nil_of_length_eq_zero (by omega)
    subst none
    exact (inlined_of_lookup_none (same name inside).symm).symm
  | succ depth ih =>
    cases found : definitions.lookup name with
    | none => rw [inlined_of_lookup_none found, inlined_of_lookup_none ((same name inside).symm.trans found)]
    | some body =>
      have found' : definitions'.lookup name = some body := (same name inside).symm.trans found
      have fewer := length_filter_ne_lt found
      have fewer' := length_filter_ne_lt found'
      obtain ⟨lower, rfl⟩ : ∃ lower, depth' = lower + 1 := ⟨depth' - 1, by omega⟩
      simp only [inlined, found, found']
      refine body.substitute_congr fun other used => ?_
      rcases other with label | param
      · refine ih (by omega) (by omega) (fun next inner reached found => ?_)
          (fun next reached => lookup_filter_congr same name reached) (closed name body inside found label used)
        exact closed next inner reached (Scope.lookup_filter_ne.mp found).2
      · rw [inlined_param, inlined_param]

end TypeName

namespace Program

variable {program : Program}

/-- The text that a name stands for in the program. -/
def text (program : Program) : TypeName → Ty :=
  TypeName.inlined program.aliases.length program.aliases

theorem text_param (program : Program) (param : Param) : program.text (.param param) = .named (.param param) :=
  TypeName.inlined_param ..

/-- The text of an alias is its body, with the texts of all aliases in place of their names. -/
theorem Acyclic.text_eq (acyclic : program.Acyclic) {name : String} {body : Ty}
    (found : program.aliases.lookup name = some body) :
    program.text (.alias name) = body.substitute program.text := by
  obtain ⟨reached, first, closed, same⟩ := acyclic.exists_reached found
  have fewer := length_filter_ne_lt found
  obtain ⟨lower, levels⟩ : ∃ lower, program.aliases.length = lower + 1 :=
    ⟨program.aliases.length - 1, by omega⟩
  unfold text
  conv_lhs => rw [levels]
  simp only [TypeName.inlined, found]
  refine body.substitute_congr fun other used => ?_
  obtain ⟨label, _, rfl, _⟩ := acyclic.defined name body found other used
  exact TypeName.inlined_congr reached (by omega) le_rfl closed same (first label used)

end Program

namespace Scope

variable {scope : Scope} {related : Form → Form → Prop}

/-- No alias is known in the scope. -/
def Bare (scope : Scope) : Prop :=
  ∀ name, scope.meaning (.alias name) = circular (.alias name)

/-- Where no alias is known, the text of an alias is read as what the alias stands for. -/
theorem aliases_alike (bare : scope.Bare)
    (respects : ∀ outer inner : TypeName → Checked Form,
      Respects ⟨scope.limit, .static, outer, []⟩ related { scope with meaning := inner })
    {definitions : List (String × Ty)}
    (closed : ∀ name body, definitions.lookup name = some body → ∀ param, body.uses (.param param) = [])
    (depth : Nat) (name : String) :
    Checked.Alike related (aliases scope.limit depth definitions (.alias name))
      (((TypeName.alias name).inlined depth definitions).normalize scope) := by
  have missing (label : String) :
      Checked.Alike related (circular (.alias label)) ((Ty.named (.alias label)).normalize scope) := by
    rw [Ty.normalize, bare]
    exact ⟨(respects scope.meaning scope.meaning).lost, rfl⟩
  -- The text is made level by level, exactly as the meaning is.
  induction depth generalizing definitions name with
  | zero => exact missing name
  | succ depth ih =>
    cases found : definitions.lookup name with
    | none => simpa only [aliases, TypeName.inlined, found] using missing name
    | some body =>
      simp only [aliases, TypeName.inlined, found]
      rw [Ty.normalize_substitute]
      refine body.normalize_alike (respects _ _) fun other use member => ?_
      refine (respects _ _).agrees ?_ use
      rcases other with label | param
      · exact ih (fun other body found => closed other body (lookup_filter_ne.mp found).2) label
      · simp only [closed name body found param] at member
        cases member

end Scope

end TypeLists
