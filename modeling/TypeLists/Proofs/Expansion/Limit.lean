import TypeLists.Proofs.Expansion.Asks
import TypeLists.Proofs.Program

/-! The limit of an expansion in closed form: an expansion step by step goes right exactly if every
literal and every inline guard is allowed at its depth, and then the limit plays no further part. -/

namespace TypeLists

open Expanding (Asks)

variable {limit : Nat}

/-- Every literal in the query is written by the grammar of literals. -/
def Query.Shaped : Query → Prop
  | .length _ subject | .name subject | .implements _ subject | .mention subject
  | .adapts _ subject | .matchEmpty subject | .layout subject => subject.Shaped
  | .sameIdentity left right | .assertSame left right | .witness left right =>
    left.Shaped ∧ right.Shaped
  | .value _ constant => constant.Shaped
  | .forge _ => True
  | .generic function =>
    function.body.Shaped ∧ ∀ call ∈ function.calls, call.1.Shaped ∧ call.2.Shaped

/-- What the literals and inline guards of a query ask of the limit. -/
def Query.demands : Query → List Demand
  -- Every type of a query stands at the outermost level.
  | .length _ subject | .name subject | .implements _ subject | .mention subject
  | .adapts _ subject | .matchEmpty subject | .layout subject => subject.demands 0
  | .sameIdentity left right | .assertSame left right | .witness left right =>
    left.demands 0 ++ right.demands 0
  | .value _ constant => constant.demands 0
  | .forge _ => []
  | .generic function =>
    function.body.demands 0 ++
      function.calls.flatMap fun call => call.1.demands 0 ++ call.2.demands 0

/-- The query with all its literals replaced by their chains, without a limit. -/
def Query.unfolded : Query → Query
  | .length kind subject => .length kind subject.unfolded
  | .name subject => .name subject.unfolded
  | .sameIdentity left right => .sameIdentity left.unfolded right.unfolded
  | .assertSame left right => .assertSame left.unfolded right.unfolded
  | .witness left right => .witness left.unfolded right.unfolded
  | .value place constant => .value place constant.unfolded
  | .implements trait subject => .implements trait subject.unfolded
  | .mention subject => .mention subject.unfolded
  | .adapts direction subject => .adapts direction subject.unfolded
  | .matchEmpty subject => .matchEmpty subject.unfolded
  | .layout subject => .layout subject.unfolded
  | .forge attempt => .forge attempt
  | .generic function =>
    .generic { function with
      body := function.body.unfolded
      calls := function.calls.map fun call => (call.1.unfolded, call.2.unfolded) }

/-- A query asks for what its types and constants ask for. -/
theorem Query.asks : ∀ query : Query,
    Asks limit query.expand query.Shaped query.demands query.unfolded
  | .length kind subject => (subject.asks 0).map (Query.length kind)
  | .name subject => (subject.asks 0).map Query.name
  | .sameIdentity left right => (left.asks 0).map₂ (right.asks 0) Query.sameIdentity
  | .assertSame left right => (left.asks 0).map₂ (right.asks 0) Query.assertSame
  | .witness left right => (left.asks 0).map₂ (right.asks 0) Query.witness
  | .value place constant => (constant.asks 0).map (Query.value place)
  | .implements trait subject => (subject.asks 0).map (Query.implements trait)
  | .mention subject => (subject.asks 0).map Query.mention
  | .adapts direction subject => (subject.asks 0).map (Query.adapts direction)
  | .matchEmpty subject => (subject.asks 0).map Query.matchEmpty
  | .layout subject => (subject.asks 0).map Query.layout
  | .forge attempt => Asks.pure (Query.forge attempt)
  -- Of a generic function, the body is expanded first, and then the types of its calls in order.
  | .generic function =>
    (function.body.asks 0).map₂
      (Asks.mapM fun call _ => (call.1.asks 0).map₂ (call.2.asks 0) Prod.mk)
      fun body calls => Query.generic { function with body, calls }

namespace Program

/-- The aliases of a program with all literals replaced by their chains. -/
def unfoldedAliases (program : Program) : List (String × Ty) :=
  program.aliases.map fun definition => (definition.1, definition.2.unfolded)

/-- Every literal in the aliases and in a query is written by the grammar of literals. -/
def Shaped (program : Program) (query : Query) : Prop :=
  (∀ definition ∈ program.aliases, definition.2.Shaped) ∧ query.Shaped

/-- What the aliases and a query ask of the limit. -/
def demands (program : Program) (query : Query) : List Demand :=
  -- The body of an alias stands at the outermost level, wherever the alias is used.
  (program.aliases.flatMap fun definition => definition.2.demands 0) ++ query.demands

/-- The aliases of a program ask for what their bodies ask for. -/
theorem asks_aliases (program : Program) :
    Asks limit (expandAliases program.aliases) (∀ definition ∈ program.aliases, definition.2.Shaped)
      (program.aliases.flatMap fun definition => definition.2.demands 0) program.unfoldedAliases :=
  Asks.mapM fun definition _ => (definition.2.asks 0).map (Prod.mk definition.1)

/-- A query asks for what it and all aliases ask for, whether or not it uses them. -/
theorem asks (program : Program) (query : Query) :
    Asks limit (do return (← expandAliases program.aliases, ← query.expand)) (program.Shaped query)
      (program.demands query) (program.unfoldedAliases, query.unfolded) :=
  program.asks_aliases.map₂ query.asks Prod.mk

/-- If all that is asked for is allowed, a query is answered without its literals. -/
theorem answer_eq_of_within {program : Program} {query : Query} (shaped : program.Shaped query)
    (within : ∀ demand ∈ program.demands query, demand.Within program.limit) :
    program.answer query =
      query.unfolded.answer (Scope.ofAliases program.limit program.unfoldedAliases) := by
  have expands := ((program.asks query).run_eq_ok_iff _).mpr ⟨shaped, within, rfl⟩
  unfold answer
  rw [expands]
  rfl

/-- If something is not allowed, the program is refused for the depth of a literal or a guard. -/
theorem answer_eq_recursionLimit {program : Program} {query : Query} (shaped : program.Shaped query)
    (exceeds : ¬ ∀ demand ∈ program.demands query, demand.Within program.limit) :
    program.answer query = .error .recursionLimit := by
  unfold answer
  rw [(program.asks query).run_eq_recursionLimit shaped exceeds]
  rfl

end Program

/-- Some limit allows all of a number of demands. -/
theorem Demand.exists_within (demands : List Demand) :
    ∃ bound, ∀ limit, bound ≤ limit → ∀ demand ∈ demands, demand.Within limit := by
  -- The largest of the least limits is enough.
  induction demands with
  | nil => exact ⟨0, by simp⟩
  | cons head rest ih =>
    obtain ⟨bound, allows⟩ := ih
    refine ⟨max head.least bound, fun limit enough => ?_⟩
    have first : head.least ≤ limit := le_trans (le_max_left _ _) enough
    have others := allows limit (le_trans (le_max_right _ _) enough)
    exact List.forall_mem_cons.mpr ⟨Demand.within_iff.mpr first, others⟩

/-- The limit of an expansion in closed form, for one sort of terms. -/
structure Expanding.Closed {term : Type} (expand : term → Nat → Expanding term)
    (shaped : term → Prop) (demands : term → Nat → List Demand) (unfolded : term → term) :
    Prop where
  /-- Terms of accepted shape expand exactly if all their demands are allowed, and to one result. -/
  succeeds : ∀ {limit depth : Nat} {written plain : term}, shaped written →
    (run limit (expand written depth) = .ok plain ↔
      (∀ demand ∈ demands written depth, demand.Within limit) ∧ unfolded written = plain)
  /-- Otherwise they are refused for their depth. -/
  refuses : ∀ {limit depth : Nat} {written : term}, shaped written →
    (¬ ∀ demand ∈ demands written depth, demand.Within limit) →
      run limit (expand written depth) = .error .recursionLimit
  /-- A larger limit gives the same result. -/
  monotone : ∀ {limit limit' depth : Nat} {written plain : term}, limit ≤ limit' →
    run limit (expand written depth) = .ok plain → run limit' (expand written depth) = .ok plain
  /-- No two limits give different results. -/
  independent : ∀ {limit limit' depth : Nat} {written plain plain' : term},
    run limit (expand written depth) = .ok plain →
      run limit' (expand written depth) = .ok plain' → plain = plain'
  /-- From some limit on, the result is that of the expansion without a limit. -/
  unlimited : ∀ {depth : Nat} {written : term}, shaped written →
    ∃ bound, ∀ limit, bound ≤ limit → run limit (expand written depth) = .ok (unfolded written)

/-- What asks for its demands under a condition has its limit in closed form. -/
theorem Expanding.closed_of_asks {term : Type} {expand : term → Nat → Expanding term}
    {shaped : term → Prop} {demands : term → Nat → List Demand} {unfolded : term → term}
    (asks : ∀ {limit : Nat} (written : term) (depth : Nat),
      Asks limit (expand written depth) (shaped written) (demands written depth)
        (unfolded written)) :
    Closed expand shaped demands unfolded where
  succeeds {limit depth written plain} holds := by
    rw [(asks written depth).run_eq_ok_iff]
    exact ⟨fun parts => parts.2, fun parts => ⟨holds, parts⟩⟩
  refuses {limit depth written} holds exceeds :=
    (asks written depth).run_eq_recursionLimit holds exceeds
  monotone {limit limit' depth written plain} more succeeds := by
    -- Demands that a limit allows are allowed by every larger one.
    obtain ⟨holds, within, same⟩ := ((asks written depth).run_eq_ok_iff plain).mp succeeds
    exact ((asks written depth).run_eq_ok_iff plain).mpr
      ⟨holds, fun demand member => (within demand member).mono more, same⟩
  independent {limit limit' depth written plain plain'} succeeds succeeds' := by
    -- Whatever the limit, the result is the one that a term has without a limit.
    obtain ⟨_, _, rfl⟩ := ((asks written depth).run_eq_ok_iff plain).mp succeeds
    obtain ⟨_, _, rfl⟩ := ((asks written depth).run_eq_ok_iff plain').mp succeeds'
    rfl
  unlimited {depth written} holds := by
    obtain ⟨bound, allows⟩ := Demand.exists_within (demands written depth)
    exact ⟨bound, fun limit enough =>
      ((asks written depth).run_eq_ok_iff _).mpr ⟨holds, allows limit enough, rfl⟩⟩

/--
Types, constants and whole programs expand exactly if every literal and every inline guard is allowed at
its depth: the result is that of the expansion without a limit, and otherwise the limit is reported.
-/
theorem expansion_limit_closed :
    Expanding.Closed Ty.expand Ty.Shaped Ty.demands Ty.unfolded ∧
      Expanding.Closed Constant.expand Constant.Shaped Constant.demands Constant.unfolded ∧
      ∀ (program : Program) (query : Query), program.Shaped query →
        ((∀ demand ∈ program.demands query, demand.Within program.limit) →
          program.answer query =
            query.unfolded.answer (Scope.ofAliases program.limit program.unfoldedAliases)) ∧
        ((¬ ∀ demand ∈ program.demands query, demand.Within program.limit) →
          program.answer query = .error .recursionLimit) := by
  -- For types and constants this is what they ask for, and a program asks for what is in it.
  refine ⟨Expanding.closed_of_asks Ty.asks, Expanding.closed_of_asks Constant.asks, ?_⟩
  intro program query shaped
  exact ⟨Program.answer_eq_of_within shaped, Program.answer_eq_recursionLimit shaped⟩

/-- A literal, its elements and an inline guard in the last of them need the limit four together. -/
theorem expansion_limit_of_guarded_list :
    Expanding.run 4 ((Ty.list [.element .nil, .comma,
        .element (.bool (.mention .eagerType (.list [])))]).expand 0) =
      .ok (.cons .nil (.cons (.bool (.mention .eagerType .nil)) .nil)) ∧
    Expanding.run 3 ((Ty.list [.element .nil, .comma,
        .element (.bool (.mention .eagerType (.list [])))]).expand 0) =
      .error .recursionLimit := by
  -- The outer literal writes two elements, and the inner one writes none.
  have shaped : (Ty.list [.element .nil, .comma,
      .element (.bool (.mention .eagerType (.list [])))]).Shaped := by
    rw [Ty.shaped_list_iff]
    refine ⟨⟨[.nil, .bool (.mention .eagerType (.list []))], .inl rfl⟩, ?_⟩
    simpa [Ty.nil, Token.value?, Ty.shaped_list_iff] using ⟨[], Literal.writes_separated []⟩
  exact ⟨(expansion_limit_closed.1.succeeds shaped).mpr ⟨by decide, rfl⟩,
    expansion_limit_closed.1.refuses shaped (by decide)⟩

/-- So many inline guards of types, one inside another. -/
def Constant.nestedGuards : Nat → Constant Ty
  | 0 => .literal true
  | count + 1 => .mention .eagerType (.bool (nestedGuards count))

/-- The literals alone do not decide: inline guards exceed a limit without any of them. -/
theorem expansion_limit_not_of_literals :
    ¬ ∀ (limit : Nat) (constant : Constant Ty), constant.Shaped →
      (∀ elements depth, .literal elements depth ∈ constant.demands 0 →
        depth + elements + 1 ≤ limit) →
      ∃ plain, Expanding.run limit (constant.expand 0) = .ok plain := by
  intro literalsDecide
  -- Nine guards are one inside another, and there is no literal that could be too deep.
  obtain ⟨plain, expands⟩ := literalsDecide 8 (.nestedGuards 9) (by simp [Constant.nestedGuards])
    (by simp [Constant.nestedGuards, Constant.demands, Ty.demands, Mention.isInline])
  cases expands

end TypeLists
