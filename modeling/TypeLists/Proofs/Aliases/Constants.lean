import TypeLists.Proofs.Aliases.Meaning

/-! Constants in types and in aliases: they are checked wherever they are written, also in aliases that nothing
uses, and what is wrong with them is found again wherever an alias is used. -/

namespace TypeLists

/-- A place of a type at which something is checked that is no part of the type. -/
inductive Leaf where
  /-- The type that a name stands for. -/
  | named (name : TypeName)
  /-- A constant that is written in the type. -/
  | carried (constant : Constant Ty)

/-- The constants that are written in a boolean list. -/
def Constant.tokenLeaves : List (Token (Constant Ty)) → List Leaf
  | [] => []
  | .comma :: rest => Constant.tokenLeaves rest
  | .element head :: rest => .carried head :: Constant.tokenLeaves rest

mutual

/-- The names and the constants in a type, from left to right. -/
def Ty.leaves : Ty → List Leaf
  -- What is written in a constant is checked together with the constant.
  | .atom _ => []
  | .wrap _ inner => inner.leaves
  | .cons head tail => head.leaves ++ tail.leaves
  | .combine _ left right => left.leaves ++ right.leaves
  | .choice condition positive negative => condition.leaves ++ (positive.leaves ++ negative.leaves)
  | .tuple members => Ty.allLeaves members
  | .function arguments result => Ty.allLeaves arguments ++ result.leaves
  | .bool constant => [.carried constant]
  | .boolCons constant tail => .carried constant :: tail.leaves
  | .list tokens => Ty.tokenLeaves tokens
  | .boolList tokens => Constant.tokenLeaves tokens
  | .output subject => subject.leaves
  | .select subject => subject.leaves
  | .named name => [.named name]

/-- The names and the constants in some types. -/
def Ty.allLeaves : List Ty → List Leaf
  | [] => []
  | head :: rest => head.leaves ++ Ty.allLeaves rest

/-- The names and the constants in a type list. -/
def Ty.tokenLeaves : List (Token Ty) → List Leaf
  | [] => []
  | .comma :: rest => Ty.tokenLeaves rest
  | .element head :: rest => head.leaves ++ Ty.tokenLeaves rest

end

/-- What is wrong with a leaf of a type: all faults of a constant, and those in the constants of an alias. -/
def Leaf.faults (scope : Scope) : Leaf → List Fault
  | .named name => Finding.faultsAt [.reported] (scope.meaning name).findings
  | .carried constant => (constant.normalize scope).faults

open Finding (faultsAt)

theorem Constant.faultsAt_normalizeTokens (scope : Scope) (tokens : List (Token (Constant Ty))) :
    faultsAt [.reported] (Constant.normalizeTokens scope tokens).findings =
      (Constant.tokenLeaves tokens).flatMap (Leaf.faults scope) := by
  induction tokens with
  | nil =>
    rw [Constant.normalizeTokens]
    rfl
  | cons token rest ih =>
    cases token with
    | comma => rw [Constant.normalizeTokens, tokenLeaves, ih]
    | element head => simp [Constant.normalizeTokens, tokenLeaves, Leaf.faults, ih]

mutual

/-- The faults in the constants of a type are those of its names and constants, one after the other. -/
theorem Ty.constantFaults_eq (scope : Scope) : ∀ type : Ty,
    faultsAt [.reported] (type.normalize scope).findings = type.leaves.flatMap (Leaf.faults scope)
  -- The rules of formers and projections are looked at on other stages.
  | .atom _ => by rw [Ty.normalize]; rfl
  | .wrap _ inner => by simp [Ty.normalize, leaves, inner.constantFaults_eq scope]
  | .cons head tail => by
    simp [Ty.normalize, leaves, head.constantFaults_eq scope, tail.constantFaults_eq scope]
  | .combine _ left right => by
    simp [Ty.normalize, leaves, left.constantFaults_eq scope, right.constantFaults_eq scope]
  | .choice condition positive negative => by
    simp [Ty.normalize, leaves, condition.constantFaults_eq scope, positive.constantFaults_eq scope,
      negative.constantFaults_eq scope]
  | .tuple members => by simp [Ty.normalize, leaves, Ty.allConstantFaults_eq scope members]
  | .function arguments result => by
    simp [Ty.normalize, leaves, Ty.allConstantFaults_eq scope arguments, result.constantFaults_eq scope]
  | .bool constant => by simp [Ty.normalize, leaves, Leaf.faults]
  | .boolCons constant tail => by simp [Ty.normalize, leaves, Leaf.faults, tail.constantFaults_eq scope]
  | .list tokens => by rw [Ty.normalize, leaves, Ty.tokenConstantFaults_eq scope tokens]
  | .boolList tokens => by rw [Ty.normalize, leaves, Constant.faultsAt_normalizeTokens scope tokens]
  | .output subject => by simp [Ty.normalize, leaves, subject.constantFaults_eq scope]
  | .select subject => by simp [Ty.normalize, leaves, subject.constantFaults_eq scope]
  | .named name => by simp [Ty.normalize, leaves, Leaf.faults]

theorem Ty.allConstantFaults_eq (scope : Scope) : ∀ types : List Ty,
    faultsAt [.reported] (Ty.normalizeAll scope types).findings =
      (Ty.allLeaves types).flatMap (Leaf.faults scope)
  | [] => by rw [Ty.normalizeAll]; rfl
  | head :: rest => by
    simp [Ty.normalizeAll, Ty.allLeaves, head.constantFaults_eq scope, Ty.allConstantFaults_eq scope rest]

theorem Ty.tokenConstantFaults_eq (scope : Scope) : ∀ tokens : List (Token Ty),
    faultsAt [.reported] (Ty.normalizeTokens scope tokens).findings =
      (Ty.tokenLeaves tokens).flatMap (Leaf.faults scope)
  | [] => by rw [Ty.normalizeTokens]; rfl
  | .comma :: rest => by
    rw [Ty.normalizeTokens, Ty.tokenLeaves, Ty.tokenConstantFaults_eq scope rest]
  | .element head :: rest => by
    simp [Ty.normalizeTokens, Ty.tokenLeaves, head.constantFaults_eq scope,
      Ty.tokenConstantFaults_eq scope rest]

end

theorem Constant.named_not_mem_tokenLeaves {name : TypeName} (tokens : List (Token (Constant Ty))) :
    .named name ∉ Constant.tokenLeaves tokens := by
  induction tokens with
  | nil => exact List.not_mem_nil
  | cons token rest ih =>
    cases token with
    | comma => exact ih
    | element head => simp [tokenLeaves, ih]

mutual

/-- A name that stands in a type itself is used there. -/
theorem Ty.uses_ne_nil_of_mem_leaves {name : TypeName} : ∀ type : Ty,
    .named name ∈ type.leaves → type.uses name ≠ []
  | .atom _, member => absurd member List.not_mem_nil
  | .wrap _ inner, member => inner.uses_ne_nil_of_mem_leaves member
  | .cons head tail, member => by
    rw [uses, Ne, List.append_eq_nil_iff, not_and_or]
    exact (List.mem_append.mp member).imp head.uses_ne_nil_of_mem_leaves tail.uses_ne_nil_of_mem_leaves
  | .combine _ left right, member => by
    rw [uses, Ne, List.append_eq_nil_iff, not_and_or]
    exact (List.mem_append.mp member).imp left.uses_ne_nil_of_mem_leaves right.uses_ne_nil_of_mem_leaves
  | .choice condition positive negative, member => by
    rw [uses, Ne, List.append_eq_nil_iff, List.append_eq_nil_iff, not_and_or, not_and_or]
    rw [leaves, List.mem_append, List.mem_append] at member
    exact member.imp condition.uses_ne_nil_of_mem_leaves
      (Or.imp positive.uses_ne_nil_of_mem_leaves negative.uses_ne_nil_of_mem_leaves)
  | .tuple members, member => Ty.allUses_ne_nil_of_mem_leaves members member
  | .function arguments result, member => by
    rw [uses, Ne, List.append_eq_nil_iff, not_and_or]
    exact (List.mem_append.mp member).imp (Ty.allUses_ne_nil_of_mem_leaves arguments)
      result.uses_ne_nil_of_mem_leaves
  | .bool constant, member => by
    cases List.mem_singleton.mp member
  | .boolCons constant tail, member => by
    rw [uses, Ne, List.append_eq_nil_iff, not_and_or]
    rcases List.mem_cons.mp member with first | rest
    · cases first
    · exact .inr (tail.uses_ne_nil_of_mem_leaves rest)
  | .list tokens, member => Ty.tokenUses_ne_nil_of_mem_leaves tokens member
  | .boolList tokens, member => absurd member (Constant.named_not_mem_tokenLeaves tokens)
  | .output subject, member => subject.uses_ne_nil_of_mem_leaves member
  | .select subject, member => subject.uses_ne_nil_of_mem_leaves member
  | .named other, member => by
    cases List.mem_singleton.mp member
    rw [uses, if_pos rfl]
    exact List.cons_ne_nil _ _

theorem Ty.allUses_ne_nil_of_mem_leaves {name : TypeName} : ∀ types : List Ty,
    .named name ∈ Ty.allLeaves types → Ty.allUses name types ≠ []
  | [], member => absurd member List.not_mem_nil
  | head :: rest, member => by
    rw [Ty.allUses, Ne, List.append_eq_nil_iff, not_and_or]
    exact (List.mem_append.mp member).imp head.uses_ne_nil_of_mem_leaves
      (Ty.allUses_ne_nil_of_mem_leaves rest)

theorem Ty.tokenUses_ne_nil_of_mem_leaves {name : TypeName} : ∀ tokens : List (Token Ty),
    .named name ∈ Ty.tokenLeaves tokens → Ty.tokenUses name tokens ≠ []
  | [], member => absurd member List.not_mem_nil
  | .comma :: rest, member => Ty.tokenUses_ne_nil_of_mem_leaves rest member
  | .element head :: rest, member => by
    rw [Ty.tokenUses, Ne, List.append_eq_nil_iff, not_and_or]
    exact (List.mem_append.mp member).imp head.uses_ne_nil_of_mem_leaves
      (Ty.tokenUses_ne_nil_of_mem_leaves rest)

end

namespace Program

variable {program : Program} {fault : Fault}

/-- The constant is written in the body of an alias of the program. -/
def Carries (program : Program) (name : String) (constant : Constant Ty) : Prop :=
  ∃ body, program.aliases.lookup name = some body ∧ .carried constant ∈ body.leaves

/-- Nothing is wrong with a constant before it is evaluated: its types are in order, and so is their use. -/
def Checks (program : Program) (constant : Constant Ty) : Prop :=
  (constant.normalize program.scope).faults = []

/-- What is wrong with the constants of an alias is wrong with the aliases as a whole. -/
theorem mem_background_iff : fault ∈ program.scope.background ↔
    ∃ name body, program.aliases.lookup name = some body ∧
      ⟨.reported, fault⟩ ∈ (program.scope.meaning (.alias name)).findings := by
  simp only [scope, Scope.ofAliases, List.mem_flatMap, Finding.mem_faultsAt_reported_iff]
  constructor
  · rintro ⟨⟨name, first⟩, member, found⟩
    cases defined : program.aliases.lookup name with
    | none => exact absurd rfl (bne_iff_ne.mp (List.lookup_eq_none_iff.mp defined (name, first) member))
    | some body => exact ⟨name, body, defined, found⟩
  · rintro ⟨name, body, defined, found⟩
    obtain ⟨front, back, split, _⟩ := List.lookup_eq_some_iff.mp defined
    exact ⟨(name, body), split ▸ List.mem_append_right _ List.mem_cons_self, found⟩

/-- A fault behind an alias is one of a constant in its body, or lies behind an alias in that. -/
theorem Acyclic.exists_leaf (acyclic : program.Acyclic) {name : String} {body : Ty}
    (defined : program.aliases.lookup name = some body)
    (found : ⟨.reported, fault⟩ ∈ (program.scope.meaning (.alias name)).findings) :
    (∃ constant, .carried constant ∈ body.leaves ∧ fault ∈ (constant.normalize program.scope).faults) ∨
      ∃ other, body.uses (.alias other) ≠ [] ∧
        ⟨.reported, fault⟩ ∈ (program.scope.meaning (.alias other)).findings := by
  rw [acyclic.meaning_eq defined, ← Finding.mem_faultsAt_reported_iff, Ty.constantFaults_eq] at found
  obtain ⟨leaf, member, wrong⟩ := List.mem_flatMap.mp found
  cases leaf with
  | carried constant => exact .inl ⟨constant, member, wrong⟩
  | named name =>
    have used := body.uses_ne_nil_of_mem_leaves member
    obtain ⟨other, _, rfl, _⟩ := acyclic.defined _ _ defined name used
    exact .inr ⟨other, used, Finding.mem_faultsAt_reported_iff.mp wrong⟩

/-- All that is wrong with the aliases of a program is wrong with the constants in their bodies. -/
theorem Acyclic.mem_background_iff (acyclic : program.Acyclic) : fault ∈ program.scope.background ↔
    ∃ name constant, program.Carries name constant ∧
      fault ∈ (constant.normalize program.scope).faults := by
  rw [Program.mem_background_iff]
  constructor
  · rintro ⟨name, body, defined, found⟩
    obtain ⟨rank, ranked⟩ := acyclic.ranked
    -- The fault is followed from alias to alias, whose rank becomes smaller.
    induction level : rank name using Nat.strong_induction_on generalizing name body with
    | h level ih =>
      subst level
      rcases acyclic.exists_leaf defined found with ⟨constant, member, wrong⟩ | ⟨other, used, found'⟩
      · exact ⟨name, constant, ⟨body, defined, member⟩, wrong⟩
      · obtain ⟨_, inner, ⟨⟩, defined'⟩ := acyclic.defined _ _ defined _ used
        exact ih _ (ranked _ _ defined _ used) _ _ defined' found' rfl
  · rintro ⟨name, constant, ⟨body, defined, member⟩, wrong⟩
    refine ⟨name, body, defined, ?_⟩
    rw [acyclic.meaning_eq defined, ← Finding.mem_faultsAt_reported_iff, Ty.constantFaults_eq]
    exact List.mem_flatMap.mpr ⟨_, member, wrong⟩

end Program

end TypeLists
