import TypeLists.Proofs.Lists.Identity

/-! The closed world of lists: the types that are lists are those whose normal form is a chain, and every
node of every well-formed type has a list as its tail. -/

namespace TypeLists

namespace Program

open Literal (Writes)

variable {program : Program} {type : Ty} {form : Form} {kind : ListKind} {length : Nat}

/-- Whatever stands in a type with a normal form has a normal form. -/
theorem Gives.contains (gives : program.Gives type form) {part : Ty}
    (contains : type.Contains part) : ∃ form, program.Gives part form := by
  -- The part expands into the expansion of the whole, in which nothing is found.
  obtain ⟨scope, plain, opens, expands, clean⟩ := gives
  obtain ⟨plainPart, partExpands, inside⟩ := contains.expand expands
  obtain ⟨form', partClean⟩ := inside.clean clean
  exact ⟨form', scope, plainPart, opens, partExpands, partClean⟩

/-- What a program says of a type with a normal form, as far as lists are concerned. -/
structure ClosedWorld (program : Program) (type : Ty) (form : Form) : Prop where
  /-- The types that implement a list trait are those that stand for chains within the limit. -/
  implements_iff : ∀ {kind},
    program.answer (.implements (.list kind) type) = .ok (.flag true) ↔
      ∃ length, length < program.limit ∧ form.Chain kind length
  /-- The length of a list is the number of its nodes, whatever the heads of these are. -/
  length_iff : ∀ {kind length}, program.answer (.length kind type) = .ok (.number length) ↔
    length < program.limit ∧ form.Chain kind length
  /-- Longer chains are refused as too deep. -/
  long : ∀ {kind length}, form.Chain kind length → program.limit ≤ length →
    program.answer (.implements (.list kind) type) = .error .tooDeep ∧
      program.answer (.length kind type) = .error .tooDeep
  /-- All other types are refused as breaking a rule. -/
  foreign : ∀ {kind}, 0 < program.limit → (¬ ∃ length, form.Chain kind length) →
    program.answer (.implements (.list kind) type) = .error .illTyped ∧
      program.answer (.length kind type) = .error .illTyped
  /-- One more node can be counted by an integer of the width of an address, as the limit can. -/
  successor : ∀ {kind length}, IntKind.Fits ⟨false, .pointer⟩ program.limit →
    program.answer (.length kind type) = .ok (.number length) →
      IntKind.apply ⟨false, .pointer⟩ .add length 1 = .ok (length + 1 : Int)
  /-- No type is a list of both kinds. -/
  oneKind : program.answer (.implements (.list .types) type) = .ok (.flag true) →
    program.answer (.implements (.list .bools) type) ≠ .ok (.flag true)
  /-- No list is a boolean expression. -/
  noExpression : ∀ {kind}, program.answer (.implements (.list kind) type) = .ok (.flag true) →
    program.answer (.implements .boolExpr type) ≠ .ok (.flag true)
  /-- Every node that is written in the type has a type list as its tail. -/
  tails : ∀ {head tail}, type.Contains (.cons head tail) →
    program.answer (.implements (.list .types) tail) = .ok (.flag true)
  /-- Every node of booleans that is written in the type has a boolean list as its tail. -/
  boolTails : ∀ {constant tail}, type.Contains (.boolCons constant tail) →
    program.answer (.implements (.list .bools) tail) = .ok (.flag true)
  /-- So has every node that a literal in the type expands to, also where a projection drops it. -/
  expandedTails : ∀ {scope plain head tail}, program.Opens scope →
    Expanding.run program.limit (type.expand 0) = .ok plain → plain.Contains (.cons head tail) →
      ∃ rest length, tail.normalize scope = .clean rest ∧ length < program.limit ∧
        rest.Chain .types length
  /-- The same holds of the nodes that literals of booleans expand to. -/
  expandedBoolTails : ∀ {scope plain constant tail}, program.Opens scope →
    Expanding.run program.limit (type.expand 0) = .ok plain →
      plain.Contains (.boolCons constant tail) →
      ∃ rest length, tail.normalize scope = .clean rest ∧ length < program.limit ∧
        rest.Chain .bools length
  /-- Every node in the normal form has a chain as its tail, wherever the node comes from. -/
  chains : ∀ {head tail}, form.Contains (.cons head tail) →
    ∃ length, length < program.limit ∧ tail.Chain .types length
  /-- Every node of booleans in the normal form has a chain of booleans as its tail. -/
  boolChains : ∀ {value tail}, form.Contains (.boolCons value tail) →
    ∃ length, length < program.limit ∧ tail.Chain .bools length

/-- A type with a normal form that meets a requirement implements the trait. -/
theorem Gives.implements (sound : program.Sound) (gives : program.Gives type form) {trait : Trait}
    (met : form.unmet program.limit trait = []) :
    program.answer (.implements trait type) = .ok (.flag true) :=
  (answer_implements_eq_ok_iff sound).mpr ⟨form, gives, met, rfl⟩

/-- The normal form of a type that implements a trait meets the requirement. -/
theorem Gives.unmet_eq_nil (sound : program.Sound) (gives : program.Gives type form) {trait : Trait}
    (implements : program.answer (.implements trait type) = .ok (.flag true)) :
    form.unmet program.limit trait = [] := by
  obtain ⟨other, gives', met, _⟩ := (answer_implements_eq_ok_iff sound).mp implements
  exact gives.unique gives' ▸ met

/-- A type is a list exactly if its normal form is a chain within the limit. -/
theorem Gives.answer_list_iff (sound : program.Sound) (gives : program.Gives type form) :
    program.answer (.implements (.list kind) type) = .ok (.flag true) ↔
      ∃ length, length < program.limit ∧ form.Chain kind length := by
  rw [← Form.unmet_list_eq_nil_iff gives.wellFormed.1]
  exact ⟨gives.unmet_eq_nil sound, gives.implements sound⟩

/-- The length of a type is the number of nodes of the chain that is its normal form. -/
theorem Gives.answer_length_iff (sound : program.Sound) (gives : program.Gives type form) :
    program.answer (.length kind type) = .ok (.number length) ↔
      length < program.limit ∧ form.Chain kind length := by
  -- A form is a chain of one length at most.
  rw [gives.answer_length sound, Fault.refuse_eq_ok_iff,
    Form.unmet_list_eq_nil_iff gives.wellFormed.1]
  constructor
  · intro parts
    obtain ⟨⟨nodes, short, chain⟩, same⟩ := parts
    cases same
    exact chain.length_eq ▸ ⟨short, chain⟩
  · intro parts
    obtain ⟨short, chain⟩ := parts
    exact ⟨⟨length, short, chain⟩, by rw [chain.length_eq]⟩

/-- A type with a normal form keeps to the closed world of lists. -/
theorem Gives.closedWorld (sound : program.Sound) (gives : program.Gives type form) :
    ClosedWorld program type form where
  implements_iff := gives.answer_list_iff sound
  length_iff := gives.answer_length_iff sound
  long {kind length} chain deep := by
    have met := chain.unmet_eq_tooDeep (gives.wellFormed.settled not_false) deep
    rw [gives.answer_implements sound, gives.answer_length sound, met]
    exact ⟨rfl, rfl⟩
  foreign {kind} positive unlisted := by
    have met := gives.wellFormed.unmet_eq_illTyped positive unlisted
    rw [gives.answer_implements sound, gives.answer_length sound, met]
    exact ⟨rfl, rfl⟩
  successor {kind length} representable counted := by
    have short := ((gives.answer_length_iff sound).mp counted).1
    have fits : IntKind.Fits ⟨false, .pointer⟩ (length + 1 : Int) := by
      obtain ⟨_, upper⟩ := representable
      refine ⟨?_, by omega⟩
      simp only [IntKind.least, Bool.false_eq_true, if_false]
      omega
    rw [IntKind.apply, IntKind.checked, if_pos fits]
  oneKind lists lists' := by
    obtain ⟨_, _, chain⟩ := (gives.answer_list_iff sound).mp lists
    obtain ⟨_, _, chain'⟩ := (gives.answer_list_iff sound).mp lists'
    cases chain.kind_eq chain'
  noExpression lists evaluates := by
    obtain ⟨_, _, chain⟩ := (gives.answer_list_iff sound).mp lists
    have met := gives.unmet_eq_nil sound evaluates
    rw [Form.unmet_eq_nil_iff (gives.wellFormed.settled not_false)] at met
    -- A boolean expression has a formula, and no chain has one.
    have formula : form.formula?.isSome := met.2
    rw [chain.formula?_eq] at formula
    cases formula
  tails contains := by
    obtain ⟨node, nodeGives⟩ := gives.contains contains
    obtain ⟨rest, tailGives, met⟩ := Literal.denotes_list.gives_tail nodeGives
    exact tailGives.implements sound met
  boolTails contains := by
    obtain ⟨node, nodeGives⟩ := gives.contains contains
    obtain ⟨rest, tailGives, met⟩ := Literal.denotes_boolList.gives_tail nodeGives
    exact tailGives.implements sound met
  expandedTails opens expands contains := by
    obtain ⟨node, clean⟩ := contains.clean (gives.clean opens expands)
    exact Literal.denotes_list.chain_of_clean opens clean
  expandedBoolTails opens expands contains := by
    obtain ⟨node, clean⟩ := contains.clean (gives.clean opens expands)
    exact Literal.denotes_boolList.chain_of_clean opens clean
  chains contains := (gives.wellFormed.contains contains).chain_of_cons
  boolChains contains := (gives.wellFormed.contains contains).chain_of_boolCons

/--
Types with normal forms keep to the closed world of lists, and a literal of types adds no requirement to
those of its elements.
-/
theorem lists_closedWorld (sound : program.Sound) :
    (∀ {type : Ty} {form : Form}, program.Gives type form → ClosedWorld program type form) ∧
    (∀ {tokens : List (Token Ty)} {types : List Ty}, Writes tokens types →
      program.Expands (.list tokens) →
      ((∃ form, program.Gives (.list tokens) form) ↔
        ∀ type ∈ types, ∃ form, program.Gives type form)) := by
  refine ⟨?_, ?_⟩
  · intro type form gives
    exact gives.closedWorld sound
  · intro tokens types writes expands
    exact Literal.denotes_list.exists_gives_iff writes expands

/-- A list of a list is well-formed, and has one element. -/
theorem lists_closedWorld_nested :
    bare.answer (.length .types (.list [.element (.list [.element .nil, .comma, .element .nil])])) =
        .ok (.number 1) ∧
      ∃ form, bare.Gives (.list [.element (.list [.element .nil, .comma, .element .nil])]) form := by
  have world := lists_closedWorld sound_bare
  have inner : bare.Gives (.list [.element .nil, .comma, .element .nil])
      (.cons .nil (.cons .nil .nil)) := ⟨_, _, opens_bare, rfl, rfl⟩
  have outer : bare.Gives (.list [.element (.list [.element .nil, .comma, .element .nil])])
      (.cons (.cons .nil (.cons .nil .nil)) .nil) := ⟨_, _, opens_bare, rfl, rfl⟩
  have writes : Writes [.element (Ty.list [.element .nil, .comma, .element .nil])]
      [.list [.element .nil, .comma, .element .nil]] := .inl rfl
  refine ⟨(world.1 outer).length_iff.mpr ⟨by decide, .cons _ .nil⟩,
    (world.2 writes ⟨_, _, opens_bare, rfl⟩).mpr ?_⟩
  intro type member
  cases List.mem_singleton.mp member
  exact ⟨_, inner⟩

end Program

end TypeLists
