import TypeLists.Program
import TypeLists.Proofs.Expansion.Types
import TypeLists.Proofs.Findings

/-! What a program says of the types and constants in it, apart from any query, and the answers that
follow from it. -/

namespace TypeLists

theorem lawful_expandAliases (definitions : List (String × Ty)) :
    (expandAliases definitions).Lawful :=
  Expanding.lawful_mapM fun definition _ =>
    (definition.2.regular_expand.lawful 0).bind fun _ => Expanding.lawful_pure _

/-- The expansion of a query is lawful. -/
theorem Query.lawful_expand : ∀ query : Query, query.expand.Lawful
  | .length _ subject | .name subject | .implements _ subject | .mention subject
  | .adapts _ subject | .matchEmpty subject | .layout subject =>
    (subject.regular_expand.lawful 0).bind fun _ => Expanding.lawful_pure _
  | .sameIdentity left right | .assertSame left right | .witness left right =>
    (left.regular_expand.lawful 0).bind fun _ =>
      (right.regular_expand.lawful 0).bind fun _ => Expanding.lawful_pure _
  | .value _ constant =>
    (constant.regular_expand.lawful 0).bind fun _ => Expanding.lawful_pure _
  | .forge _ => Expanding.lawful_pure _
  | .generic function =>
    (function.body.regular_expand.lawful 0).bind fun _ =>
      (Expanding.lawful_mapM fun call _ =>
        (call.1.regular_expand.lawful 0).bind fun _ =>
          (call.2.regular_expand.lawful 0).bind fun _ => Expanding.lawful_pure _).bind fun _ =>
        Expanding.lawful_pure _

namespace Program

/-- The literals in all aliases expand, which gives the scope of the types in the program. -/
def Opens (program : Program) (scope : Scope) : Prop :=
  ∃ aliases, Expanding.run program.limit (expandAliases program.aliases) = .ok aliases ∧
    scope = Scope.ofAliases program.limit aliases

/-- The aliases of the program are in order: their literals expand and their constants are well-formed. -/
def Sound (program : Program) : Prop :=
  ∃ scope, program.Opens scope ∧ scope.background = []

/-- The literals in the type and in all aliases expand. -/
def Expands (program : Program) (type : Ty) : Prop :=
  ∃ scope plain, program.Opens scope ∧ Expanding.run program.limit (type.expand 0) = .ok plain

/-- The type is well-formed, all constants in it evaluate, and this is its normal form. -/
def Gives (program : Program) (type : Ty) (form : Form) : Prop :=
  ∃ scope plain, program.Opens scope ∧ Expanding.run program.limit (type.expand 0) = .ok plain ∧
    plain.normalize scope = .clean form

/-- The types that the constant names are well-formed, and this is the constant over their forms. -/
def Resolves (program : Program) (constant : Constant Ty) (resolved : Constant Form) : Prop :=
  ∃ scope plain, program.Opens scope ∧
    Expanding.run program.limit (constant.expand 0) = .ok plain ∧
    plain.normalize scope = .clean resolved

/-- The program without aliases, within the limit that holds where nothing sets another. -/
def bare : Program := ⟨defaultLimit, [], []⟩

theorem opens_bare : bare.Opens (Scope.ofAliases defaultLimit []) := ⟨[], rfl, rfl⟩

/-- Without aliases there is nothing to be out of order. -/
theorem sound_bare : bare.Sound := ⟨_, opens_bare, rfl⟩

variable {program : Program}

/-- A program has at most one scope. -/
theorem Opens.unique {scope other : Scope} (opens : program.Opens scope)
    (opens' : program.Opens other) : scope = other := by
  -- What the aliases expand to depends on the program alone.
  obtain ⟨aliases, expands, rfl⟩ := opens
  obtain ⟨aliases', expands', rfl⟩ := opens'
  rw [expands] at expands'
  cases expands'
  rfl

/-- Nothing is found in the aliases of a program that are in order. -/
theorem Sound.background_eq_nil (sound : program.Sound) {scope : Scope}
    (opens : program.Opens scope) : scope.background = [] := by
  obtain ⟨other, opens', quiet⟩ := sound
  exact opens.unique opens' ▸ quiet

/-- Proofs in a program may go as deep as its limit says. -/
theorem Opens.limit_eq {scope : Scope} (opens : program.Opens scope) :
    scope.limit = program.limit := by
  obtain ⟨aliases, expands, rfl⟩ := opens
  rfl

/-- The aliases and a query expand together exactly as they do one by one. -/
theorem run_aliases_and_query_iff {query plain : Query} {aliases : List (String × Ty)} :
    Expanding.run program.limit (do
        return (← expandAliases program.aliases, ← query.expand)) = .ok (aliases, plain) ↔
      Expanding.run program.limit (expandAliases program.aliases) = .ok aliases ∧
        Expanding.run program.limit query.expand = .ok plain := by
  -- Both parts are lawful, so that what one of them succeeds with does not depend on the other.
  have pairs (first : List (String × Ty)) :
      (query.expand >>= fun second => pure (first, second)).Lawful :=
    query.lawful_expand.bind fun _ => Expanding.lawful_pure _
  rw [(lawful_expandAliases _).run_bind_eq_ok_iff pairs]
  simp only [query.lawful_expand.run_bind_eq_ok_iff fun _ => Expanding.lawful_pure _,
    Expanding.run_pure]
  constructor
  · intro parts
    obtain ⟨_, first, _, second, same⟩ := parts
    cases same
    exact ⟨first, second⟩
  · intro parts
    exact ⟨aliases, parts.1, plain, parts.2, rfl⟩

/-- A query is answered in the scope of the aliases, without the literals in it. -/
theorem Opens.answer_eq {scope : Scope} (opens : program.Opens scope) {query plain : Query}
    (expands : Expanding.run program.limit query.expand = .ok plain) :
    program.answer query = plain.answer scope := by
  obtain ⟨aliases, expandsAliases, rfl⟩ := opens
  unfold answer
  rw [run_aliases_and_query_iff.mpr ⟨expandsAliases, expands⟩]
  rfl

/-- Only programs with a scope answer a query, and only queries whose literals expand. -/
theorem answer_eq_ok_iff {query : Query} {value : Value} :
    program.answer query = .ok value ↔
      ∃ scope plain, program.Opens scope ∧ Expanding.run program.limit query.expand = .ok plain ∧
        plain.answer scope = .ok value := by
  -- Where the expansion ends in an error, there is no answer with a value.
  constructor
  · intro answered
    cases expanded : Expanding.run program.limit (do
        return (← expandAliases program.aliases, ← query.expand)) with
    | error error =>
      unfold answer at answered
      rw [expanded] at answered
      cases answered
    | ok both =>
      obtain ⟨expandsAliases, expands⟩ := run_aliases_and_query_iff.mp expanded
      have opens : program.Opens _ := ⟨both.1, expandsAliases, rfl⟩
      exact ⟨_, both.2, opens, expands, opens.answer_eq expands ▸ answered⟩
  · intro parts
    obtain ⟨scope, plain, opens, expands, answered⟩ := parts
    exact (opens.answer_eq expands).trans answered

end Program

end TypeLists
