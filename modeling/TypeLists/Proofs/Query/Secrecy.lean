import TypeLists.Proofs.Expansion.Substitution
import TypeLists.Proofs.Form.Living

/-! Guards keep what they guard to themselves: of an expression whose evaluation succeeds, no query can tell
which one stands in a guard. -/

namespace TypeLists

/-- Guards of the type succeed: it is a boolean expression without parameters that can be evaluated. -/
def Scope.Guards (scope : Scope) (type : Ty) : Prop :=
  ∃ form, type.normalize scope = .clean form ∧ form.unguardable scope.limit = [] ∧ form.closed ∧
    ∃ value, form.value = .ok value

namespace Scope

variable {scope : Scope} {name : TypeName} {type type' : Ty}

/-- A guard that succeeds does so wherever the references in it live. -/
theorem Guards.varying (guards : scope.Guards type) : scope.varying.Guards type := by
  obtain ⟨form, clean, met, closed, value, evaluates⟩ := guards
  have respects : scope.Respects Form.SameButLifetimes scope.varying := respects_sameButLifetimes rfl
  have alike := type.normalize_varying scope
  have same : form.SameButLifetimes (type.normalize scope.varying).value := by
    have same := alike.value
    rwa [clean] at same
  refine ⟨(type.normalize scope.varying).value, ?_, ?_, ?_, value, ?_⟩
  · rw [Checked.eq_clean_iff, ← alike.findings, clean]
    exact ⟨rfl, rfl⟩
  · rw [Form.unguardable, ← respects.unmet .sized trivial same, ← respects.unmet .boolExpr trivial same]
    exact met
  · rw [← respects.closed same]
    exact closed
  · rw [← respects.value same]
    exact evaluates

/-- What a guard that succeeds shows does not depend on what it guards. -/
theorem Guards.observed {how : Mention} (guards : scope.Guards type)
    (guard : some how = some .boolGuard ∨ some how = some .eagerBool) :
    ∃ resolved, (Constant.mention how (.named name)).normalize (scope.giving (name.replaced type)) =
      .clean resolved ∧ resolved.observed = .mention how (.outcome (.ok true) true) := by
  obtain ⟨form, clean, met, closed, value, evaluates⟩ := guards
  have replaced : (scope.giving (name.replaced type)).meaning name = .clean form := by
    simp only [giving, TypeName.replaced, if_pos, clean]
  refine ⟨.mention how form, ?_, ?_⟩
  · simp only [Constant.normalize, Ty.normalize, replaced, Checked.bind_eq_clean_iff,
      Checked.note_eq_clean_iff, Checked.pure_eq_clean_iff]
    refine ⟨form, rfl, (), ?_, rfl⟩
    rcases guard with guard | guard <;> cases guard <;> exact met
  · rcases guard with guard | guard <;> cases guard <;>
      simp only [Constant.observed, Form.reading, evaluates, Except.map, closed]

/-- A name that only guards use agrees where what stands for it lets the guards succeed. -/
theorem agreesOn_guarded {uses : TypeName → List (Option Mention)} (guarded : Guarded (uses name))
    (guards : scope.Guards type) (guards' : scope.Guards type') :
    (scope.giving (name.replaced type)).AgreesOn Eq (scope.giving (name.replaced type')) uses := by
  intro other use member
  by_cases marked : other = name
  · subst marked
    cases use with
    | none => exact absurd (guarded none member) (by simp)
    | some how =>
      obtain ⟨resolved, clean, observed⟩ := guards.observed (guarded _ member)
      obtain ⟨resolved', clean', observed'⟩ := guards'.observed (guarded _ member)
      rw [Agrees, clean, clean']
      exact ⟨observed.trans observed'.symm, rfl⟩
  · -- Every other name stands for the same as before.
    have respects : (scope.giving (name.replaced type)).Respects Eq (scope.giving (name.replaced type')) :=
      respects_eq rfl rfl
    refine respects.agrees ?_ use
    simp only [giving, TypeName.replaced, if_neg marked]
    exact .refl _

end Scope

namespace Program

variable {program : Program} {query : Query} {name : TypeName} {type type' : Ty}

/-- Guards of the type succeed in the program. -/
def Guards (program : Program) (type : Ty) : Prop :=
  ∃ form, type.normalize program.scope = .clean form ∧ form.unguardable program.limit = [] ∧
    ∃ value, form.value = .ok value

/-- A type without findings in a program is read alike in functions, whatever their parameters stand for. -/
theorem normalize_withParams {form : Form} (clean : type.normalize program.scope = .clean form)
    (expression other : Form) :
    type.normalize (program.scope.withParams expression other) = .clean form := by
  refine Ty.normalize_more (fun name form named => ?_) type clean
  rcases name with label | param
  · exact named
  · exact absurd ((Scope.aliases_param ..).symm.trans named) Scope.circular_ne_clean

theorem Guards.scope (guards : program.Guards type) : program.scope.Guards type := by
  obtain ⟨form, clean, met, evaluates⟩ := guards
  have whole := Ty.wellFormed_normalize not_false
    (fun _ _ named => Scope.wellFormed_aliases named) type clean
  exact ⟨form, clean, met, Form.closed_of_holes whole.1, evaluates⟩

theorem Guards.withParams (guards : program.Guards type) (expression other : Form) :
    (program.scope.withParams expression other).Guards type := by
  obtain ⟨form, clean, met, closed, evaluates⟩ := guards.scope
  exact ⟨form, normalize_withParams clean expression other, met, closed, evaluates⟩

/-- Without literals, no query shows which of two expressions stands in its guards. -/
theorem Guards.answer_fill (guards : program.Guards type) (guards' : program.Guards type')
    (guarded : Guarded (query.uses name)) :
    (query.fill name type).answer program.scope = (query.fill name type').answer program.scope := by
  refine query.answer_substitute_congr ⟨rfl, rfl, ?_, ?_⟩ (fun _ _ => Iff.rfl) ?_
  · exact Scope.agreesOn_guarded guarded guards.scope guards'.scope
  · intro expression other
    exact Scope.agreesOn_guarded guarded (guards.withParams expression other)
      (guards'.withParams expression other)
  · rintro direction subject rfl
    have same : (subject.substitute (name.replaced type)).normalize program.scope.varying =
        (subject.substitute (name.replaced type')).normalize program.scope.varying := by
      have agrees : (program.scope.varying.giving (name.replaced type)).AgreesOn Eq
          (program.scope.varying.giving (name.replaced type')) fun name => subject.uses name :=
        Scope.agreesOn_guarded guarded guards.scope.varying guards'.scope.varying
      rw [Ty.normalize_substitute, Ty.normalize_substitute]
      exact Ty.normalize_congr (by rfl) (by rfl) subject agrees
    rw [Ty.adapts, Ty.adapts, same]

/--
A type can stand for a name in a query as far as literals go: its literals expand there, and it brings no
error that the literals of the query do not have themselves.
-/
def Accommodates (program : Program) (query : Query) (name : TypeName) (type : Ty) : Prop :=
  (program.expansion (query.fill name type)).error? = (program.expansion query).error?

/-- In a query whose own literals expand, a type can stand where its literals expand at that depth. -/
theorem accommodates_iff (expands : (program.expansion query).error? = none) :
    program.Accommodates query name type ↔
      ∀ hole ∈ query.names, hole.1 = name → type.Fits program.limit hole.2 := by
  obtain ⟨aliases, own⟩ := expands_iff.mp expands
  have holes : FitIn program.limit (name.replaced type) query.names ↔
      ∀ hole ∈ query.names, hole.1 = name → type.Fits program.limit hole.2 := by
    refine forall₂_congr fun hole _ => ?_
    rw [TypeName.replaced]
    split
    · rename_i marked
      exact ⟨fun fits _ => fits, fun fits => fits marked⟩
    · rename_i other
      -- A name that is kept has no literals.
      exact iff_of_true (by simp [Ty.Fits, Ty.demands]) fun marked => absurd marked other
  rw [Accommodates, expands, expands_iff, Query.fill, Query.fits_substitute_iff, holes]
  exact ⟨fun parts => parts.2.2, fun fits => ⟨aliases, own, fits⟩⟩

/--
A guard shows nothing but that its evaluation succeeds: whichever of two expressions with values stands in the
guards of a query, the answer is the same.
-/
theorem guards_show_nothing (guarded : Guarded (query.uses name))
    (guards : program.Guards type) (guards' : program.Guards type')
    (fits : program.Accommodates query name type) (fits' : program.Accommodates query name type') :
    program.answer (query.fill name type) = program.answer (query.fill name type') := by
  rw [answer_eq, answer_eq, fits, fits', guards.answer_fill guards' guarded]

/-- A list of the value of a guard is the same list whether the guard stands over true or over false. -/
theorem guards_show_nothing_in_boolList :
    bare.answer ((Query.name (.boolList [.element (.mention .eagerBool (.named (.alias "G_")))])).fill
        (.alias "G_") (.bool (.literal true))) =
      bare.answer ((Query.name (.boolList [.element (.mention .eagerBool (.named (.alias "G_")))])).fill
        (.alias "G_") (.wrap .not (.bool (.literal true)))) := by
  have guards : bare.Guards (.bool (.literal true)) := ⟨.bool (some true), rfl, rfl, true, rfl⟩
  have guards' : bare.Guards (.wrap .not (.bool (.literal true))) :=
    ⟨.wrap .not (.bool (some true)), rfl, rfl, false, rfl⟩
  refine guards_show_nothing (fun use member => ?_) guards guards' rfl rfl
  have only : use ∈ [some Mention.eagerBool] := member
  exact .inr (List.mem_singleton.mp only)

end Program

end TypeLists
