import TypeLists.Proofs.Expansion.Asks
import TypeLists.Proofs.Query

/-! Literals and normal forms: a literal has the normal form of the chain that it stands for, so that a
type can be normalized as it is written, as soon as its literals expand. -/

namespace TypeLists

variable {scope : Scope}

mutual

/-- A type and its expansion are normalized alike, with the same findings. -/
theorem Ty.normalize_unfolded : ∀ type : Ty, type.unfolded.normalize scope = type.normalize scope
  -- The nodes of a chain are held against their rules in the order of the elements.
  | .atom _ | .named _ => rfl
  | .wrap wrapper inner => by
    simp only [Ty.unfolded, Ty.normalize, inner.normalize_unfolded]
  | .cons head tail => by
    simp only [Ty.unfolded, Ty.normalize, head.normalize_unfolded, tail.normalize_unfolded]
  | .combine combinator left right => by
    simp only [Ty.unfolded, Ty.normalize, left.normalize_unfolded, right.normalize_unfolded]
  | .choice condition positive negative => by
    simp only [Ty.unfolded, Ty.normalize, condition.normalize_unfolded,
      positive.normalize_unfolded, negative.normalize_unfolded]
  | .tuple members => by
    simp only [Ty.unfolded, Ty.normalize, Ty.normalizeAll_unfolded members]
  | .function arguments result => by
    simp only [Ty.unfolded, Ty.normalize, Ty.normalizeAll_unfolded arguments,
      result.normalize_unfolded]
  | .bool constant => by
    simp only [Ty.unfolded, Ty.normalize, constant.normalize_unfolded]
  | .boolCons constant tail => by
    simp only [Ty.unfolded, Ty.normalize, constant.normalize_unfolded, tail.normalize_unfolded]
  | .list tokens => by
    rw [Ty.unfolded, Ty.normalize, Ty.normalize_unfoldedTokens tokens]
  | .boolList tokens => by
    rw [Ty.unfolded, Ty.normalize, Constant.normalize_unfoldedTokens tokens]
  | .output subject => by simp only [Ty.unfolded, Ty.normalize, subject.normalize_unfolded]
  | .select subject => by simp only [Ty.unfolded, Ty.normalize, subject.normalize_unfolded]

/-- Some types and their expansions are normalized alike. -/
theorem Ty.normalizeAll_unfolded : ∀ types : List Ty,
    Ty.normalizeAll scope (Ty.allUnfolded types) = Ty.normalizeAll scope types
  | [] => rfl
  | head :: rest => by
    simp only [Ty.allUnfolded, Ty.normalizeAll, head.normalize_unfolded,
      Ty.normalizeAll_unfolded rest]

/-- The chain of a type list is normalized as the list is. -/
theorem Ty.normalize_unfoldedTokens : ∀ tokens : List (Token Ty),
    (Ty.unfoldedTokens tokens).normalize scope = Ty.normalizeTokens scope tokens
  | [] => rfl
  | .comma :: rest => by
    rw [Ty.unfoldedTokens, Ty.normalizeTokens, Ty.normalize_unfoldedTokens rest]
  | .element head :: rest => by
    simp only [Ty.unfoldedTokens, Ty.normalize, Ty.normalizeTokens, head.normalize_unfolded,
      Ty.normalize_unfoldedTokens rest]

/-- A constant and its expansion are normalized alike, with the same findings. -/
theorem Constant.normalize_unfolded : ∀ constant : Constant Ty,
    constant.unfolded.normalize scope = constant.normalize scope
  -- Only the types that it names are expanded, and mentions keep their order.
  | .literal _ | .panic _ => rfl
  | .not operand => by
    simp only [Constant.unfolded, Constant.normalize, operand.normalize_unfolded]
  | .connect connective left right => by
    simp only [Constant.unfolded, Constant.normalize, left.normalize_unfolded,
      right.normalize_unfolded]
  | .choose condition positive negative => by
    simp only [Constant.unfolded, Constant.normalize, condition.normalize_unfolded,
      positive.normalize_unfolded, negative.normalize_unfolded]
  | .compare comparison kind left right => by
    simp only [Constant.unfolded, Constant.normalize, left.normalize_unfolded,
      right.normalize_unfolded]
  | .mention how subject => by
    simp only [Constant.unfolded, Constant.normalize, subject.normalize_unfolded]

/-- An integer expression and its expansion are normalized alike. -/
theorem Arith.normalize_unfolded : ∀ number : Arith Ty,
    number.unfolded.normalize scope = number.normalize scope
  -- No literals but those of the lists that it measures are in an integer expression.
  | .literal _ _ | .least | .greatest => rfl
  | .negate operand => by
    simp only [Arith.unfolded, Arith.normalize, operand.normalize_unfolded]
  | .apply operation left right => by
    simp only [Arith.unfolded, Arith.normalize, left.normalize_unfolded, right.normalize_unfolded]
  | .length kind list => by
    simp only [Arith.unfolded, Arith.normalize, list.normalize_unfolded]

/-- The chain of a boolean list is normalized as the list is. -/
theorem Constant.normalize_unfoldedTokens : ∀ tokens : List (Token (Constant Ty)),
    (Constant.unfoldedTokens tokens).normalize scope = Constant.normalizeTokens scope tokens
  | [] => rfl
  | .comma :: rest => by
    rw [Constant.unfoldedTokens, Constant.normalizeTokens, Constant.normalize_unfoldedTokens rest]
  | .element head :: rest => by
    simp only [Constant.unfoldedTokens, Ty.normalize, Constant.normalizeTokens,
      head.normalize_unfolded, Constant.normalize_unfoldedTokens rest]

end

/-- What a type expands to is normalized as the type itself is. -/
theorem Ty.normalize_of_run {limit depth : Nat} {type plain : Ty}
    (expands : Expanding.run limit (type.expand depth) = .ok plain) :
    plain.normalize scope = type.normalize scope := by
  obtain ⟨_, _, rfl⟩ := ((type.asks depth).run_eq_ok_iff plain).mp expands
  exact type.normalize_unfolded

/-- What a constant expands to is normalized as the constant itself is. -/
theorem Constant.normalize_of_run {limit depth : Nat} {constant plain : Constant Ty}
    (expands : Expanding.run limit (constant.expand depth) = .ok plain) :
    plain.normalize scope = constant.normalize scope := by
  obtain ⟨_, _, rfl⟩ := ((constant.asks depth).run_eq_ok_iff plain).mp expands
  exact constant.normalize_unfolded

namespace Program

variable {program : Program}

/-- A type has a normal form exactly if its literals expand and it has one as it is written. -/
theorem gives_iff {type : Ty} {form : Form} :
    program.Gives type form ↔
      program.Expands type ∧ ∃ scope, program.Opens scope ∧ type.normalize scope = .clean form := by
  -- Expanding and normalizing do not get in the way of each other, so that they can be asked for apart.
  constructor
  · intro gives
    obtain ⟨scope, plain, opens, expands, clean⟩ := gives
    rw [Ty.normalize_of_run expands] at clean
    exact ⟨⟨scope, plain, opens, expands⟩, scope, opens, clean⟩
  · intro parts
    obtain ⟨⟨scope, plain, opens, expands⟩, other, opens', clean⟩ := parts
    cases opens.unique opens'
    exact ⟨scope, plain, opens, expands, (Ty.normalize_of_run expands).trans clean⟩

/-- The literals in a constant and in all aliases expand. -/
def ExpandsConstant (program : Program) (constant : Constant Ty) : Prop :=
  ∃ scope plain, program.Opens scope ∧
    Expanding.run program.limit (constant.expand 0) = .ok plain

/-- A constant resolves exactly if its literals expand and it resolves as it is written. -/
theorem resolves_iff {constant : Constant Ty} {resolved : Constant Form} :
    program.Resolves constant resolved ↔
      program.ExpandsConstant constant ∧
        ∃ scope, program.Opens scope ∧ constant.normalize scope = .clean resolved := by
  -- As for types, the expansion is only asked for its success.
  constructor
  · intro resolves
    obtain ⟨scope, plain, opens, expands, clean⟩ := resolves
    rw [Constant.normalize_of_run expands] at clean
    exact ⟨⟨scope, plain, opens, expands⟩, scope, opens, clean⟩
  · intro parts
    obtain ⟨⟨scope, plain, opens, expands⟩, other, opens', clean⟩ := parts
    cases opens.unique opens'
    exact ⟨scope, plain, opens, expands, (Constant.normalize_of_run expands).trans clean⟩

end Program

end TypeLists
