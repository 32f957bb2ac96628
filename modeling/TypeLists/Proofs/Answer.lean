import TypeLists.Proofs.Normalization.Names

/-! Answers apart from literals: the expansion of a program decides whether a query is refused for its
literals, and every other answer is that of the query as it is written. -/

namespace TypeLists

/-- The types of a call are normalized as they are written. -/
theorem Generic.arguments_unfolded (scope : Scope) (function other : Generic)
    (same : other.bound = function.bound) (calls : List (Ty × Ty)) :
    other.arguments scope (calls.map fun call => (call.1.unfolded, call.2.unfolded)) =
      function.arguments scope calls := by
  induction calls with
  | nil => rfl
  | cons call rest ih =>
    have first : other.argumentsOf scope (call.1.unfolded, call.2.unfolded) =
        function.argumentsOf scope call := by
      simp only [argumentsOf, Ty.normalize_unfolded, same]
    rw [List.map_cons, arguments, first, ih, arguments]

/-- A query and its expansion are answered alike. -/
theorem Query.answer_unfolded (scope : Scope) : ∀ query : Query,
    query.unfolded.answer scope = query.answer scope
  -- What a query asks for are normal forms, and those are the same.
  | .length _ _ | .name _ | .implements _ _ | .layout _ => by
    simp only [unfolded, answer, Ty.normalize_unfolded]
  | .sameIdentity _ _ => by simp only [unfolded, answer, Ty.normalize_unfolded]
  | .assertSame _ _ | .witness _ _ => by
    simp only [unfolded, answer, Ty.identify, Ty.normalize_unfolded]
  | .value .item _ | .value .body _ => by
    simp only [unfolded, answer, Constant.normalize_unfolded]
  | .mention _ => by simp only [unfolded, answer, Ty.constantFaults, Ty.normalize_unfolded]
  | .adapts _ _ => by simp only [unfolded, answer, Ty.adapts, Ty.normalize_unfolded]
  | .matchEmpty _ => by simp only [unfolded, answer, Ty.matchEmpty, Ty.normalize_unfolded]
  | .forge _ => rfl
  | .generic function => by
    let other : Generic := { function with
      body := function.body.unfolded
      calls := function.calls.map fun call => (call.1.unfolded, call.2.unfolded) }
    have guarded (inner : Scope) :
        other.guarded.normalize inner = function.guarded.normalize inner := by
      simp only [Generic.guarded, other]
      cases function.under with
      | none => exact function.body.normalize_unfolded
      | some condition => simp only [Constant.normalize, Constant.normalize_unfolded]
    have arguments : other.arguments scope other.calls = function.arguments scope function.calls :=
      Generic.arguments_unfolded scope function other rfl function.calls
    have instances : other.instantiate scope = function.instantiate scope := by
      funext forms
      simp only [Generic.instantiate, guarded]
    show other.answer scope = function.answer scope
    simp only [Generic.answer, Generic.schema, guarded, arguments, instances]
    rfl

/-- Aliases stand for the same whether or not their literals are expanded. -/
theorem Scope.aliases_unfolded (limit depth : Nat) (definitions : List (String × Ty)) :
    aliases limit depth (definitions.map fun definition => (definition.1, definition.2.unfolded)) =
      aliases limit depth definitions := by
  -- The induction is on the levels: bodies are normalized as they are written, one level lower.
  induction depth generalizing definitions with
  | zero => rfl
  | succ depth ih =>
    funext name
    rcases name with label | param
    · have found := Program.lookup_unfoldedAliases ⟨limit, definitions, []⟩ label
      simp only [Program.unfoldedAliases] at found
      simp only [aliases, found, List.filter_map]
      cases definitions.lookup label with
      | none => rfl
      | some body =>
        have others := ih (definitions.filter fun definition => definition.1 ≠ label)
        rw [Option.map_some, ← others]
        exact body.normalize_unfolded
    · rfl

/-- The scope of some aliases is the same whether or not their literals are expanded. -/
theorem Scope.ofAliases_unfolded (limit : Nat) (definitions : List (String × Ty)) :
    ofAliases limit (definitions.map fun definition => (definition.1, definition.2.unfolded)) =
      ofAliases limit definitions := by
  simp only [ofAliases, List.length_map, aliases_unfolded, List.flatMap_map]

/-- Parameters stand for nothing outside the functions that they belong to. -/
theorem Scope.aliases_param (limit depth : Nat) (definitions : List (String × Ty)) (param : Param) :
    aliases limit depth definitions (.param param) = circular (.param param) := by
  cases depth <;> rfl

namespace Program

/-- The scope of the types in a program, whose aliases are read as they are written. -/
def scope (program : Program) : Scope :=
  Scope.ofAliases program.limit program.aliases

@[simp] theorem limit_scope (program : Program) : program.scope.limit = program.limit := rfl

/-- The state in which the expansion of the aliases and of a query ends. -/
def expansion (program : Program) (query : Query) : Expansion :=
  ((do return (← expandAliases program.aliases, ← query.expand) :
    Expanding (List (String × Ty) × Query)) (Expansion.start program.limit)).2

variable {program : Program} {query : Query}

/-- The scope that the aliases of a program give is the one of the program. -/
theorem Opens.eq_scope {scope : Scope} (opens : program.Opens scope) : scope = program.scope := by
  obtain ⟨aliases, expands, rfl⟩ := opens
  obtain ⟨_, _, rfl⟩ := (program.asks_aliases.run_eq_ok_iff aliases).mp expands
  exact Scope.ofAliases_unfolded program.limit program.aliases

/-- The aliases of a program are in order exactly if they expand and no fault is in their constants. -/
theorem Sound.background_scope (sound : program.Sound) : program.scope.background = [] := by
  obtain ⟨scope, opens, quiet⟩ := sound
  exact opens.eq_scope ▸ quiet

/--
A query is refused for its literals or those of the aliases, or is answered as it is written.

The literals play no part in the answer except that all of them have to expand.
-/
theorem answer_eq (program : Program) (query : Query) :
    program.answer query =
      match (program.expansion query).error? with
      | some error => .error (.ofLiteral error)
      | none => query.answer program.scope := by
  unfold answer
  rw [Expanding.run_eq]
  cases error : (program.expansion query).error? with
  | some error =>
    unfold expansion at error
    rw [error]
    rfl
  | none =>
    -- Without an error, the result of the expansion is the query without its literals.
    have expands : Expanding.run program.limit
        (do return (← expandAliases program.aliases, ← query.expand)) =
          .ok ((do return (← expandAliases program.aliases, ← query.expand) :
            Expanding (List (String × Ty) × Query)) (Expansion.start program.limit)).1 := by
      rw [Expanding.run_eq_ok_iff, ← Expansion.error?_eq_none_iff]
      exact ⟨error, rfl⟩
    obtain ⟨_, _, made⟩ := ((program.asks query).run_eq_ok_iff _).mp expands
    unfold expansion at error
    rw [error, ← made]
    show query.unfolded.answer (Scope.ofAliases program.limit program.unfoldedAliases) = _
    rw [Query.answer_unfolded]
    exact congrArg query.answer (Scope.ofAliases_unfolded program.limit program.aliases)

/-- Queries whose expansions end alike are answered alike, if they are as they are written. -/
theorem answer_congr {program' : Program} {query' : Query}
    (expansions : program.expansion query = program'.expansion query')
    (answers : query.answer program.scope = query'.answer program'.scope) :
    program.answer query = program'.answer query' := by
  rw [answer_eq, answer_eq, expansions, answers]

/-- The expansion of a query goes right exactly if it finds its rules and its demands are allowed. -/
theorem error?_expansion_eq_none_iff :
    (program.expansion query).error? = none ↔ program.Shaped query ∧
      ∀ demand ∈ program.demands query, demand.Within program.limit := by
  rw [Expansion.error?_eq_none_iff]
  constructor
  · intro right
    have expands := Expanding.run_eq_ok_iff.mpr ⟨right, rfl⟩
    obtain ⟨shaped, within, _⟩ := ((program.asks query).run_eq_ok_iff _).mp expands
    exact ⟨shaped, within⟩
  · intro parts
    have expands := ((program.asks query).run_eq_ok_iff _).mpr ⟨parts.1, parts.2, rfl⟩
    exact (Expanding.run_eq_ok_iff.mp expands).1

/-- An expansion that goes right ends in the state in which it started. -/
theorem expansion_eq_start (right : (program.expansion query).error? = none) :
    program.expansion query = Expansion.start program.limit := by
  rw [Expansion.error?_eq_none_iff] at right
  exact ((@asks program.limit program query).lawful _).resolve_right right

end Program

end TypeLists
