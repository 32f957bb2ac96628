import TypeLists.Proofs.Literal.Meaning

/-! The identity of lists: literals are the same type exactly if they have the same elements in the same
order, however these are written. -/

namespace TypeLists

namespace Program

open Literal (Writes)

variable {program : Program}

/-- Two types are the same exactly if they have one normal form in common. -/
theorem sameIdentity_iff (sound : program.Sound) {left right : Ty} :
    program.answer (.sameIdentity left right) = .ok (.flag true) ↔
      ∃ form, program.Gives left form ∧ program.Gives right form := by
  -- A type has no normal form besides the one.
  rw [answer_sameIdentity_eq_ok_iff sound]
  constructor
  · intro parts
    obtain ⟨form, form', gives, gives', same⟩ := parts
    have equal : form = form' := by simpa using same
    exact ⟨form, gives, equal ▸ gives'⟩
  · intro parts
    obtain ⟨form, gives, gives'⟩ := parts
    exact ⟨form, form, gives, gives', by simp⟩

/-- An element of a boolean list stands for the value that it has as a constant item. -/
theorem stands_bool_iff (sound : program.Sound) {constant : Constant Ty} {value : Bool} :
    program.Stands Constant.expand (fun scope constant value =>
        Constant.settle (constant.normalize scope) = .clean (some value)) constant value ↔
      program.answer (.value .item constant) = .ok (.flag value) := by
  -- Both say that the constant resolves and that its evaluation succeeds.
  simp only [answer_value_eq_ok_iff sound, Stands, Constant.settle_eq_clean_iff]
  constructor
  · intro parts
    obtain ⟨scope, plain, opens, expands, resolved, result, clean, outcome, same⟩ := parts
    cases same
    exact ⟨resolved, value, ⟨scope, plain, opens, expands, clean⟩, outcome, rfl⟩
  · intro parts
    obtain ⟨resolved, result, ⟨scope, plain, opens, expands, clean⟩, outcome, same⟩ := parts
    cases same
    exact ⟨scope, plain, opens, expands, resolved, value, clean, outcome, rfl⟩

/-- A type that implements a list trait is a chain of that kind. -/
theorem chain_of_answer (sound : program.Sound) {kind : ListKind} {type : Ty}
    (lists : program.answer (.implements (.list kind) type) = .ok (.flag true)) :
    ∃ form length, program.Gives type form ∧ form.Chain kind length := by
  obtain ⟨form, gives, met, _⟩ := (answer_implements_eq_ok_iff sound).mp lists
  obtain ⟨length, _, chain⟩ := (Form.unmet_list_eq_nil_iff gives.wellFormed.1).mp met
  exact ⟨form, length, gives, chain⟩

/--
Type lists are the same type exactly if they have as many elements and these are the same types one by
one, boolean lists exactly if their elements have the same values one by one, and lists of different
kinds are never the same.
-/
theorem sameIdentity_of_literals (sound : program.Sound) :
    (∀ {left right : List (Token Ty)} {lefts rights : List Ty}, Writes left lefts →
      Writes right rights → program.Expands (.list left) → program.Expands (.list right) →
      (∀ type ∈ lefts ++ rights, ∃ form, program.Gives type form) →
      ∃ same : Bool, program.answer (.sameIdentity (.list left) (.list right)) = .ok (.flag same) ∧
        (same = true ↔ List.Forall₂ (fun type other =>
          program.answer (.sameIdentity type other) = .ok (.flag true)) lefts rights)) ∧
    (∀ {left right : List (Token (Constant Ty))} {lefts rights : List (Constant Ty)},
      Writes left lefts → Writes right rights →
      program.Expands (.boolList left) → program.Expands (.boolList right) →
      (∀ constant ∈ lefts ++ rights,
        ∃ value, program.answer (.value .item constant) = .ok (.flag value)) →
      ∃ same : Bool, program.answer (.sameIdentity (.boolList left) (.boolList right)) =
          .ok (.flag same) ∧
        (same = true ↔ List.Forall₂ (fun constant other =>
          ∃ value, program.answer (.value .item constant) = .ok (.flag value) ∧
            program.answer (.value .item other) = .ok (.flag value)) lefts rights)) ∧
    (∀ {left right : Ty},
      program.answer (.implements (.list .types) left) = .ok (.flag true) →
      program.answer (.implements (.list .bools) right) = .ok (.flag true) →
      program.answer (.sameIdentity left right) = .ok (.flag false)) := by
  refine ⟨?_, ?_, ?_⟩
  · intro left right lefts rights writes writes' expands expands' known
    simp only [sameIdentity_iff sound]
    exact Literal.denotes_list.answer_sameIdentity sound writes writes' expands expands' known
  · intro left right lefts rights writes writes' expands expands' known
    simp only [← stands_bool_iff sound] at known ⊢
    exact Literal.denotes_boolList.answer_sameIdentity sound writes writes' expands expands' known
  · intro left right lists lists'
    obtain ⟨form, length, gives, chain⟩ := chain_of_answer sound lists
    obtain ⟨form', length', gives', chain'⟩ := chain_of_answer sound lists'
    rw [gives.answer_sameIdentity sound gives']
    -- One normal form would be a chain of both kinds.
    have different : form ≠ form' := by
      intro same
      cases chain.kind_eq (same ▸ chain')
    rw [decide_eq_false different]

/-- A last comma and another spelling of a boolean leave a list the same, and another kind does not. -/
theorem sameIdentity_of_singletons :
    bare.answer (.sameIdentity (.list [.element .nil, .comma]) (.list [.element .nil])) =
        .ok (.flag true) ∧
      bare.answer (.sameIdentity (.boolList [.element (.literal true)])
        (.boolList [.element (.not (.literal false))])) = .ok (.flag true) ∧
      bare.answer (.sameIdentity .nil .boolNil) = .ok (.flag false) := by
  have identity := sameIdentity_of_literals sound_bare
  refine ⟨?_, ?_, identity.2.2 rfl rfl⟩
  · have ended : Writes [.element Ty.nil, .comma] [.nil] := .inr ⟨List.cons_ne_nil _ _, rfl⟩
    have bare : Writes [.element Ty.nil] [.nil] := .inl rfl
    obtain ⟨same, answered, decided⟩ := identity.1 ended bare ⟨_, _, opens_bare, rfl⟩
      ⟨_, _, opens_bare, rfl⟩ (by
        intro type member
        simp only [List.cons_append, List.nil_append, List.mem_cons, List.not_mem_nil, or_false,
          or_self] at member
        subst member
        exact ⟨.nil, _, _, opens_bare, rfl, rfl⟩)
    rw [answered, decided.mpr (.cons rfl .nil)]
  · have written : Writes [.element (.literal true)] [(.literal true : Constant Ty)] := .inl rfl
    have negated : Writes [.element (.not (.literal false))]
        [(.not (.literal false) : Constant Ty)] := .inl rfl
    obtain ⟨same, answered, decided⟩ := identity.2.1 written negated ⟨_, _, opens_bare, rfl⟩
      ⟨_, _, opens_bare, rfl⟩ (by
        intro constant member
        simp only [List.cons_append, List.nil_append, List.mem_cons, List.not_mem_nil,
          or_false] at member
        rcases member with rfl | rfl
        · exact ⟨true, rfl⟩
        · exact ⟨true, rfl⟩)
    rw [answered, decided.mpr (.cons ⟨true, rfl, rfl⟩ .nil)]

end Program

end TypeLists
