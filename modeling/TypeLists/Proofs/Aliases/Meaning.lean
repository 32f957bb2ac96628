import TypeLists.Proofs.Query.Substitution

/-! What aliases stand for: the body of an alias is read among the aliases that it uses, and all others may
be left out. -/

namespace TypeLists

/-- Definitions of some names are looked up as before where the others are left out. -/
theorem lookup_filter (keep : String → Bool) {name : String} (kept : keep name)
    (definitions : List (String × Ty)) :
    (definitions.filter fun definition => keep definition.1).lookup name = definitions.lookup name := by
  induction definitions with
  | nil => rfl
  | cons definition rest ih =>
    obtain ⟨first, body⟩ := definition
    by_cases found : name = first
    · subst found
      rw [List.filter_cons_of_pos (by simpa using kept), List.lookup_cons_self, List.lookup_cons_self]
    · have missed : (name == first) = false := beq_false_of_ne found
      rw [List.lookup_cons, missed, ← ih, List.filter_cons]
      split
      · rw [List.lookup_cons, missed]
      · rfl

/-- A definition that is left out is not found. -/
theorem lookup_filter_of_dropped (keep : String → Bool) {name : String} (dropped : keep name = false)
    (definitions : List (String × Ty)) :
    (definitions.filter fun definition => keep definition.1).lookup name = none := by
  induction definitions with
  | nil => rfl
  | cons definition rest ih =>
    obtain ⟨first, body⟩ := definition
    rw [List.filter_cons]
    split
    · rename_i kept
      have missed : (name == first) = false := by
        apply beq_false_of_ne
        rintro rfl
        simp [dropped] at kept
      rw [List.lookup_cons, missed, ih]
    · exact ih

/-- Definitions that agree in some names still do where one name is left out of both. -/
theorem lookup_filter_congr {reached : String → Prop} {definitions definitions' : List (String × Ty)}
    (same : ∀ next, reached next → definitions.lookup next = definitions'.lookup next) (name : String)
    {next : String} (inside : reached next) :
    (definitions.filter fun definition => definition.1 ≠ name).lookup next =
      (definitions'.filter fun definition => definition.1 ≠ name).lookup next := by
  by_cases again : next = name
  · subst again
    rw [lookup_filter_of_dropped (fun label => label ≠ next) (by simp),
      lookup_filter_of_dropped (fun label => label ≠ next) (by simp)]
  · rw [lookup_filter (fun label => label ≠ name) (by simpa using again),
      lookup_filter (fun label => label ≠ name) (by simpa using again), same next inside]

/-- A name that is found leaves fewer definitions when it is left out. -/
theorem length_filter_ne_lt {name : String} {body : Ty} {definitions : List (String × Ty)}
    (found : definitions.lookup name = some body) :
    (definitions.filter fun definition => definition.1 ≠ name).length < definitions.length := by
  rw [List.length_filter_lt_length_iff_exists]
  obtain ⟨front, back, rfl, _⟩ := List.lookup_eq_some_iff.mp found
  exact ⟨(name, body), by simp, by simp⟩

namespace Scope

/-- Aliases out of scope stand for nothing, however many levels there are. -/
theorem aliases_of_lookup_none {limit depth : Nat} {definitions : List (String × Ty)} {name : String}
    (missing : definitions.lookup name = none) :
    aliases limit depth definitions (.alias name) = circular (.alias name) := by
  cases depth with
  | zero => rfl
  | succ depth => simp only [aliases, missing]

/-- An alias stands for its body, read one level lower where it is out of scope itself. -/
theorem aliases_of_lookup_some (limit : Nat) {depth : Nat} {definitions : List (String × Ty)} {name : String}
    {body : Ty} (found : definitions.lookup name = some body) (levels : definitions.length ≤ depth) :
    ∃ lower, depth = lower + 1 ∧
      (definitions.filter fun definition => definition.1 ≠ name).length ≤ lower ∧
      aliases limit depth definitions (.alias name) = body.normalize ⟨limit, .static,
        aliases limit lower (definitions.filter fun definition => definition.1 ≠ name), []⟩ := by
  have fewer := length_filter_ne_lt found
  obtain ⟨lower, rfl⟩ : ∃ lower, depth = lower + 1 := ⟨depth - 1, by omega⟩
  exact ⟨lower, rfl, by omega, by simp only [aliases, found]⟩

/--
Among two collections of definitions, an alias stands for the same if the two agree in all names that
its body leads to.
-/
theorem aliases_congr {limit depth depth' : Nat} {definitions definitions' : List (String × Ty)}
    (reached : String → Prop) (levels : definitions.length ≤ depth)
    (levels' : definitions'.length ≤ depth')
    (closed : ∀ name body, reached name → definitions.lookup name = some body →
      ∀ other, body.uses (.alias other) ≠ [] → reached other)
    (same : ∀ name, reached name → definitions.lookup name = definitions'.lookup name) {name : String}
    (inside : reached name) :
    aliases limit depth definitions (.alias name) = aliases limit depth' definitions' (.alias name) := by
  -- The induction is on the levels: the body of an alias has one level less, on both sides.
  induction depth generalizing depth' definitions definitions' name with
  | zero =>
    have none : definitions = [] := List.eq_nil_of_length_eq_zero (by omega)
    subst none
    exact (aliases_of_lookup_none (same name inside).symm).symm
  | succ depth ih =>
    cases found : definitions.lookup name with
    | none =>
      rw [aliases_of_lookup_none found, aliases_of_lookup_none ((same name inside).symm.trans found)]
    | some body =>
      have found' : definitions'.lookup name = some body := (same name inside).symm.trans found
      obtain ⟨lower, deeper, enough, read⟩ := aliases_of_lookup_some limit found levels
      obtain ⟨lower', rfl, enough', read'⟩ := aliases_of_lookup_some limit found' levels'
      cases deeper
      rw [read, read']
      refine Ty.normalize_congr (by rfl) (by rfl) body fun other use member => ?_
      have respects : Scope.Respects
          ⟨limit, .static, aliases limit depth (definitions.filter fun definition => definition.1 ≠ name), []⟩
          Eq
          ⟨limit, .static, aliases limit lower' (definitions'.filter fun definition => definition.1 ≠ name),
            []⟩ := respects_eq rfl rfl
      refine respects.agrees ?_ use
      rcases other with label | param
      · have inner : aliases limit depth (definitions.filter fun definition => definition.1 ≠ name)
            (.alias label) =
          aliases limit lower' (definitions'.filter fun definition => definition.1 ≠ name)
            (.alias label) := by
          refine ih enough enough' (fun next inner reached found => ?_)
            (fun next reached => lookup_filter_congr same name reached)
            (closed name body inside found label (List.ne_nil_of_mem member))
          exact closed next inner reached (lookup_filter_ne.mp found).2
        exact Checked.alike_of_eq inner
      · exact Checked.alike_of_eq ((aliases_param ..).trans (aliases_param ..).symm)

end Scope

namespace Program

/-- A name is reached from a query if the query uses it, or the body of an alias that is reached does. -/
inductive Reaches (program : Program) (query : Query) : String → Prop where
  | used {name : String} (used : query.uses (.alias name) ≠ []) : Reaches program query name
  | through {name other : String} {body : Ty} (reached : Reaches program query name)
    (found : program.aliases.lookup name = some body) (used : body.uses (.alias other) ≠ []) :
    Reaches program query other

/-- The program with some of its aliases only. -/
def keeping (program : Program) (keep : String → Bool) : Program :=
  { program with aliases := program.aliases.filter fun definition => keep definition.1 }

/-- Only names of aliases of the program are used. -/
def Defines (program : Program) (uses : TypeName → List (Option Mention)) : Prop :=
  ∀ name, uses name ≠ [] → ∃ label body, name = .alias label ∧ program.aliases.lookup label = some body

/-- The aliases of the program refer to one another without going round in a circle, and to nothing else. -/
structure Acyclic (program : Program) : Prop where
  ranked : ∃ rank : String → Nat, ∀ name body, program.aliases.lookup name = some body →
    ∀ other, body.uses (.alias other) ≠ [] → rank other < rank name
  defined : ∀ name body, program.aliases.lookup name = some body →
    program.Defines fun other => body.uses other

/-- What the body of an alias leads to does not lead back to the alias, which may be left out there. -/
theorem Acyclic.exists_reached {program : Program} (acyclic : program.Acyclic) {name : String} {body : Ty}
    (found : program.aliases.lookup name = some body) :
    ∃ reached : String → Prop,
      (∀ other, body.uses (.alias other) ≠ [] → reached other) ∧
      (∀ next inner, reached next →
        (program.aliases.filter fun definition => definition.1 ≠ name).lookup next = some inner →
        ∀ other, inner.uses (.alias other) ≠ [] → reached other) ∧
      ∀ next, reached next →
        (program.aliases.filter fun definition => definition.1 ≠ name).lookup next =
          program.aliases.lookup next := by
  -- All that the body leads to has a lower rank than the alias itself.
  obtain ⟨rank, ranked⟩ := acyclic.ranked
  refine ⟨fun other => rank other < rank name, ranked name body found,
    fun next inner below found' other used => ?_,
    fun next below => lookup_filter (fun label => label ≠ name) ?_ program.aliases⟩
  · exact (ranked next inner (Scope.lookup_filter_ne.mp found').2 other used).trans below
  · simp only [decide_eq_true_eq]
    rintro rfl
    exact lt_irrefl _ below

/-- An alias stands for its body as it would be read wherever the alias is used. -/
theorem Acyclic.meaning_eq {program : Program} (acyclic : program.Acyclic) {name : String} {body : Ty}
    (found : program.aliases.lookup name = some body) :
    program.scope.meaning (.alias name) = body.normalize program.scope := by
  obtain ⟨reached, first, closed, same⟩ := acyclic.exists_reached found
  obtain ⟨lower, _, enough, read⟩ := Scope.aliases_of_lookup_some program.limit found le_rfl
  refine read.trans (Ty.normalize_congr (by rfl) (by rfl) body fun other use member => ?_)
  obtain ⟨label, _, rfl, _⟩ := acyclic.defined name body found other (List.ne_nil_of_mem member)
  have respects : Scope.Respects ⟨program.limit, .static,
      Scope.aliases program.limit lower (program.aliases.filter fun definition => definition.1 ≠ name), []⟩
      Eq program.scope := Scope.respects_eq rfl rfl
  refine respects.agrees (Checked.alike_of_eq ?_) use
  exact Scope.aliases_congr reached enough le_rfl closed same (first label (List.ne_nil_of_mem member))

end Program

end TypeLists
