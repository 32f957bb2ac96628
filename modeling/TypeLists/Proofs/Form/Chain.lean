import TypeLists.Proofs.WellFormed

/-! Lists as chains: the forms that are lists are exactly the chains of nodes of one kind, and their length
is the number of the nodes. -/

namespace TypeLists

namespace Form

/-- The form is a list of a kind with so many nodes in front of its end. -/
inductive Chain : ListKind → Nat → Form → Prop where
  | nil : Chain .types 0 .nil
  | cons {length : Nat} {tail : Form} (head : Form) (rest : Chain .types length tail) :
    Chain .types (length + 1) (.cons head tail)
  | boolNil : Chain .bools 0 .boolNil
  | boolCons {length : Nat} {tail : Form} (value : Bool) (rest : Chain .bools length tail) :
    Chain .bools (length + 1) (.boolCons (some value) tail)

variable {kind : ListKind} {length limit : Nat} {form : Form}

/-- A chain is a list, and its length is the number of its nodes. -/
theorem Chain.length?_eq (chain : form.Chain kind length) : form.length? kind = some length := by
  -- Every node adds one to the length of its tail.
  induction chain with
  | nil => rfl
  | cons head _ ih => rw [length?, ih, Option.map_some]
  | boolNil => rfl
  | boolCons value _ ih => rw [length?, ih, Option.map_some]

/-- A list without holes is a chain of as many nodes as its length says. -/
theorem chain_of_length? (whole : ∀ hole ∈ form.holes, False)
    (found : form.length? kind = some length) : form.Chain kind length := by
  -- The recursion is that of the length, and a hole in it would be one of the form.
  fun_induction length? kind form generalizing length with
  | case1 =>
    cases found
    exact .nil
  | case2 head tail ih =>
    obtain ⟨rest, tailFound, rfl⟩ := Option.map_eq_some_iff.mp found
    exact .cons head (ih (fun hole inside => whole hole (by simp [holes, inside])) tailFound)
  | case3 =>
    cases found
    exact .boolNil
  | case4 value tail ih =>
    obtain ⟨rest, tailFound, rfl⟩ := Option.map_eq_some_iff.mp found
    cases value with
    | none => exact (whole .lost (by simp [holes])).elim
    | some value =>
      exact .boolCons value (ih (fun hole inside => whole hole (by simp [holes, inside])) tailFound)
  | case5 kind cause => exact (whole cause (by simp [holes])).elim
  | case6 => cases found
  | case7 => cases found

/-- A form without holes is a list exactly if it is a chain. -/
theorem length?_eq_some_iff (whole : ∀ hole ∈ form.holes, False) :
    form.length? kind = some length ↔ form.Chain kind length :=
  ⟨chain_of_length? whole, Chain.length?_eq⟩

theorem Chain.length_eq (chain : form.Chain kind length) : form.length kind = length := by
  rw [Form.length, chain.length?_eq, Option.getD_some]

/-- A form is a chain of one length at most. -/
theorem Chain.unique {other : Nat} (chain : form.Chain kind length)
    (chain' : form.Chain kind other) : length = other := by
  rw [← chain.length_eq, chain'.length_eq]

/-- Every node of a chain is a level of the proof that it is a list, and so is its end. -/
theorem Chain.listDepth_eq (chain : form.Chain kind length) : form.listDepth kind = length + 1 := by
  -- The search goes one level down at every node.
  induction chain with
  | nil => rfl
  | cons head _ ih => rw [listDepth, ih]
  | boolNil => rfl
  | boolCons value _ ih => rw [listDepth, ih]

/-- No chain is of both kinds. -/
theorem Chain.kind_eq {kind' : ListKind} {other : Nat} (chain : form.Chain kind length)
    (chain' : form.Chain kind' other) : kind = kind' := by
  -- The outermost former tells the kinds apart.
  cases chain <;> cases chain' <;> rfl

/-- No chain is a boolean expression. -/
theorem Chain.formula?_eq (chain : form.Chain kind length) : form.formula? = none := by
  cases chain <;> rfl

/-- A chain meets the requirement to be a list if it is short enough, whatever its heads are. -/
theorem Chain.unmet_eq_nil (chain : form.Chain kind length) (short : length < limit) :
    form.unmet limit (.list kind) = [] := by
  have shallow : ¬ limit < form.proofDepth (.list kind) := by
    rw [proofDepth, chain.listDepth_eq]
    omega
  have found : form.implements (.list kind) := by
    rw [implements, chain.length?_eq, Option.isSome_some]
  unfold unmet
  rw [if_neg shallow, if_pos found]
  -- Nothing is required of a form in which something was lost either.
  exact ite_self _

/-- A form without holes meets the requirement to be a list exactly if it is a short enough chain. -/
theorem unmet_list_eq_nil_iff (whole : ∀ hole ∈ form.holes, False) :
    form.unmet limit (.list kind) = [] ↔ ∃ length, length < limit ∧ form.Chain kind length := by
  -- The depth of the proof exceeds the number of nodes by one.
  rw [unmet_eq_nil_iff (settled_of_holes not_false whole)]
  simp only [proofDepth, implements, Option.isSome_iff_exists, length?_eq_some_iff whole]
  constructor
  · intro both
    obtain ⟨shallow, length, chain⟩ := both
    rw [chain.listDepth_eq] at shallow
    exact ⟨length, by omega, chain⟩
  · intro short
    obtain ⟨length, below, chain⟩ := short
    exact ⟨by rw [chain.listDepth_eq]; omega, length, chain⟩

/-- The tail of a well-formed node is a chain, so that the node is one itself. -/
theorem WellFormed.chain_of_cons {head tail : Form}
    (wellFormed : (Form.cons head tail).WellFormed (fun _ => False) limit) :
    ∃ length, length < limit ∧ tail.Chain .types length := by
  obtain ⟨_, tailFormed, rules⟩ := wellFormed_cons_iff.mp wellFormed
  exact (unmet_list_eq_nil_iff tailFormed.1).mp rules

/-- The tail of a well-formed node of booleans is a chain of booleans. -/
theorem WellFormed.chain_of_boolCons {value : Option Bool} {tail : Form}
    (wellFormed : (Form.boolCons value tail).WellFormed (fun _ => False) limit) :
    ∃ length, length < limit ∧ tail.Chain .bools length := by
  obtain ⟨holes, rules⟩ := wellFormed
  simp only [malformations, List.append_eq_nil_iff] at rules
  exact (unmet_list_eq_nil_iff fun hole inside => holes hole (by simp [Form.holes, inside])).mp
    rules.2

/-- A well-formed form that is no chain is seen to be no list at the first level. -/
theorem WellFormed.listDepth_eq_one (wellFormed : form.WellFormed (fun _ => False) limit)
    (unlisted : ¬ ∃ length, form.Chain kind length) : form.listDepth kind = 1 := by
  -- A node would have a chain as its tail, and thus be a chain itself.
  cases kind with
  | types =>
    cases form with
    | cons head tail =>
      obtain ⟨length, _, chain⟩ := wellFormed.chain_of_cons
      exact absurd ⟨length + 1, .cons head chain⟩ unlisted
    | _ => rfl
  | bools =>
    cases form with
    | boolCons value tail =>
      obtain ⟨length, _, chain⟩ := wellFormed.chain_of_boolCons
      cases value with
      | none => exact (wellFormed.1 .lost (by simp [holes])).elim
      | some value => exact absurd ⟨length + 1, .boolCons value chain⟩ unlisted
    | _ => rfl

/-- A chain that is too long is reported as too deep, although it is a list. -/
theorem Chain.unmet_eq_tooDeep (settled : form.settled) (chain : form.Chain kind length)
    (long : limit ≤ length) : form.unmet limit (.list kind) = [.tooDeep] := by
  have deep : limit < form.proofDepth (.list kind) := by
    rw [proofDepth, chain.listDepth_eq]
    omega
  simp [unmet, settled, deep]

/-- A well-formed form that is no chain breaks the rule to be a list. -/
theorem WellFormed.unmet_eq_illTyped (wellFormed : form.WellFormed (fun _ => False) limit)
    (positive : 0 < limit) (unlisted : ¬ ∃ length, form.Chain kind length) :
    form.unmet limit (.list kind) = [.illTyped] := by
  have settled := wellFormed.settled not_false
  have shallow : ¬ limit < form.proofDepth (.list kind) := by
    rw [proofDepth, wellFormed.listDepth_eq_one unlisted]
    omega
  have missing : ¬ form.implements (.list kind) := by
    simp only [implements, Option.isSome_iff_exists, length?_eq_some_iff wellFormed.1]
    exact unlisted
  simp [unmet, settled, shallow, missing, shortfall]

end Form

end TypeLists
