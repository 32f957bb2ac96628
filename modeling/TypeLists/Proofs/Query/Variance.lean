import TypeLists.Proofs.Aliases.Transparency
import TypeLists.Proofs.Expansion.Parts
import TypeLists.Proofs.Form.Chain
import TypeLists.Proofs.Form.Variance
import TypeLists.Proofs.Literal.Exactness

/-! Lifetimes in signatures: list nodes and guards are covariant in everything that they carry, as their fields
are, so that a list changes its lifetimes exactly if all of its elements do. -/

namespace TypeLists

/-- A type in a signature is faultless if nothing but its normal form is asked about, and breaks no rule. -/
theorem Signature.faults_ofChecked_eq_nil_iff {limit : Nat} {checked : Checked Form} :
    (ofChecked limit checked).faults = [] ↔
      Finding.faultsAt [.reported, .evaluation] checked.findings = [] ∧
        Finding.faultsAt [.projection] checked.findings = [] ∧
          checked.value.malformations limit = [] := by
  rw [ofChecked]
  split
  · -- A faulty constant is what the signature is refused for.
    rename_i faulty
    have some : Finding.faultsAt [.reported, .evaluation] checked.findings ≠ [] := by
      simpa using faulty
    simp [faults, some]
  · rename_i constants
    have none : Finding.faultsAt [.reported, .evaluation] checked.findings = [] := by
      simpa using constants
    split
    · -- Too deep a proof is itself one of the faults.
      rename_i deep
      refine iff_of_false (by simp [faults]) fun all => ?_
      rw [all.2.1, all.2.2] at deep
      cases deep
    · simp [faults, none, Finding.cutOff_eq_nil_iff]

/-- The chain of some types is normalized to the chain of their forms. -/
theorem Ty.value_normalize_chain (scope : Scope) (types : List Ty) :
    ((types.foldr Ty.cons .nil).normalize scope).value =
      (types.map fun type => (type.normalize scope).value).foldr .cons .nil := by
  induction types with
  | nil => rfl
  | cons head rest ih =>
    rw [List.foldr_cons, List.map_cons, List.foldr_cons, ← ih]
    rfl

/-- Before the rules of formers, what is found in a chain of types is what is found in the types. -/
theorem Ty.faultsAt_normalize_chain (scope : Scope) {stages : List Stage} (early : .formation ∉ stages)
    (types : List Ty) :
    Finding.faultsAt stages ((types.foldr Ty.cons .nil).normalize scope).findings =
      types.flatMap fun type => Finding.faultsAt stages (type.normalize scope).findings := by
  induction types with
  | nil => rfl
  | cons head rest ih =>
    have noted (form : Form) :
        Finding.faultsAt stages (Form.formed scope.limit form).findings = [] := by
      rw [Form.formed, Checked.findings_bind, Checked.findings_pure, List.append_nil]
      exact Finding.faultsAt_note early _
    rw [List.foldr_cons, List.flatMap_cons, ← ih, Ty.normalize, Checked.findings_bind,
      Checked.findings_bind, Finding.faultsAt_append, Finding.faultsAt_append, noted,
      List.append_nil]

namespace Form

/-- Some forms in a row are a chain of as many nodes. -/
theorem chain_foldr_cons (heads : List Form) : (heads.foldr cons nil).Chain .types heads.length := by
  induction heads with
  | nil => exact .nil
  | cons head rest ih => exact .cons head ih

/-- A chain within the limit breaks no rule exactly if its elements break none. -/
theorem malformations_chain_eq_nil_iff {limit : Nat} {heads : List Form} (within : heads.length ≤ limit) :
    (heads.foldr cons nil).malformations limit = [] ↔
      ∀ head ∈ heads, head.malformations limit = [] := by
  induction heads with
  | nil => exact iff_of_true rfl nofun
  | cons head rest ih =>
    have short : rest.length < limit := within
    -- The only rule of a node is that its tail is a list, which is a chain that is short enough.
    have listed : (rest.foldr cons nil).unmet limit (.list .types) = [] :=
      (chain_foldr_cons rest).unmet_eq_nil short
    rw [List.foldr_cons, List.forall_mem_cons, ← ih (by omega), malformations, malformed, listed,
      List.append_nil, List.append_eq_nil_iff]

end Form

namespace Program

/-- The type in a signature, where its own references live as long as their place demands. -/
def signature (program : Program) (type : Ty) : Signature :=
  Signature.ofChecked program.limit (type.normalize program.scope.varying)

/-- The type can stand in a signature, and this is its normal form there. -/
def Signs (program : Program) (type : Ty) (form : Form) : Prop :=
  program.Expands type ∧ (program.signature type).faults = [] ∧ (program.signature type).form = form

variable {program : Program} {type : Ty} {form : Form}

/-- Whether lifetimes can be changed is decided on the normal form of a type in a signature. -/
theorem Signs.answer_adapts (sound : program.Sound) (signs : program.Signs type form)
    (direction : Direction) :
    program.answer (.adapts direction type) = form.adaptation direction := by
  obtain ⟨⟨scope, plain, opens, expands⟩, quiet, rfl⟩ := signs
  have query : Expanding.run program.limit (Query.adapts direction type).expand =
      .ok (.adapts direction plain) :=
    Expanding.run_map_eq_ok_iff.mpr ⟨plain, expands, rfl⟩
  cases opens.eq_scope
  -- Without faults, only the form of the signature is looked at.
  rw [opens.answer_eq query, Query.answer, Ty.adapts, Ty.normalize_of_run expands,
    sound.background_scope]
  unfold signature at quiet ⊢
  rw [limit_scope, quiet]
  rfl

/-- Lifetimes can be changed exactly if nothing is wrong with the type in its signature and its form adapts. -/
theorem answer_adapts_eq_ok_iff (sound : program.Sound) (expands : program.Expands type)
    {direction : Direction} :
    program.answer (.adapts direction type) = .ok (.flag true) ↔
      (program.signature type).faults = [] ∧ (program.signature type).form.adapts direction := by
  by_cases quiet : (program.signature type).faults = []
  · have signs : program.Signs type (program.signature type).form := ⟨expands, quiet, rfl⟩
    rw [signs.answer_adapts sound, Form.adaptation]
    split <;> simp_all
  · -- The faults refuse the query before its question is asked.
    refine iff_of_false (fun answered => quiet ?_) fun both => quiet both.1
    obtain ⟨scope, query, opens, made, concluded⟩ := answer_eq_ok_iff.mp answered
    obtain ⟨plain, run, rfl⟩ := Expanding.run_map_eq_ok_iff.mp made
    cases opens.eq_scope
    rw [Query.answer, Ty.adapts, Ty.normalize_of_run run, sound.background_scope] at concluded
    cases refused : Fault.refuse (program.signature type).faults (program.signature type).form with
    | ok _ => exact (Fault.refuse_eq_ok_iff.mp refused).1
    | error refusal =>
      unfold signature at refused
      rw [limit_scope, List.nil_append, refused] at concluded
      cases concluded

/-- A type with a normal form can stand in a signature, where its form is the same but for lifetimes. -/
theorem Gives.signs (gives : program.Gives type form) :
    ∃ form', form'.SameButLifetimes form ∧ program.Signs type form' := by
  obtain ⟨expands, scope, opens, clean⟩ := gives_iff.mp gives
  have alike := type.normalize_varying scope
  cases opens.eq_scope
  rw [clean] at alike
  -- The same is found in the signature, which is nothing.
  have quiet : (type.normalize program.scope.varying).findings = [] := alike.findings.symm
  have same : form.living .static = (type.normalize program.scope.varying).value.living .static :=
    alike.value
  refine ⟨_, same.symm, expands, ?_, Signature.form_ofChecked _ _⟩
  rw [signature, Signature.faults_ofChecked_eq_nil_iff, quiet, ← Form.malformations_living .static,
    ← same, Form.malformations_living]
  exact ⟨rfl, rfl, gives.wellFormed.2⟩

/-- All references in a signature live as long as their place demands, if none of them is in an alias. -/
theorem Signs.lives (signs : program.Signs type form)
    (unnamed : ∀ label, type.uses (.alias label) = []) : form.Lives .varying := by
  obtain ⟨_, _, rfl⟩ := signs
  rw [← Form.living_eq_iff_lives, signature, Signature.form_ofChecked]
  -- The type is compared with itself, by a relation that all formers respect.
  have respects : program.scope.varying.Respects (fun form form' => form.living .varying = form')
      program.scope.varying := Scope.respects_living rfl rfl
  refine (type.normalize_alike respects fun name use member => respects.agrees ?_ use).value
  rcases name with label | param
  · have none : use ∈ type.uses (.alias label) := member
    rw [unnamed label] at none
    cases none
  · show Checked.Alike _ (Scope.aliases _ _ _ (.param param)) (Scope.aliases _ _ _ (.param param))
    rw [Scope.aliases_param]
    exact ⟨rfl, rfl⟩

/-- A list changes its lifetimes exactly if all of its elements do. -/
theorem answer_adapts_list_iff (sound : program.Sound) {tokens : List (Token Ty)} {types : List Ty}
    (writes : Literal.Writes tokens types) (expands : program.Expands (.list tokens))
    (direction : Direction) :
    program.answer (.adapts direction (.list tokens)) = .ok (.flag true) ↔
      ∀ element ∈ types, program.answer (.adapts direction element) = .ok (.flag true) := by
  obtain ⟨scope, plain, opens, run⟩ := expands
  -- The elements expand with the list, which has no more of them than the limit allows.
  have expandsElement {element : Ty} (member : element ∈ types) : program.Expands element := by
    have part : element ∈ (Ty.list tokens).parts := by
      rw [Ty.parts, writes.filterMap]
      exact member
    obtain ⟨plainElement, run', _⟩ := Ty.expand_of_mem run part
    exact ⟨scope, plainElement, opens, run'⟩
  have within : types.length ≤ program.limit := by
    obtain ⟨_, _, writes', within, _⟩ := Literal.builds_list.run_eq_ok_iff.mp run
    cases writes.filterMap.symm.trans writes'.filterMap
    omega
  have chain : (Ty.list tokens).normalize program.scope.varying =
      (types.foldr Ty.cons .nil).normalize program.scope.varying := by
    rw [← writes.filterMap, Ty.normalize_foldr_cons, Ty.normalize]
  have elements : (∀ element ∈ types, program.answer (.adapts direction element) = .ok (.flag true)) ↔
      ∀ element ∈ types, (program.signature element).faults = [] ∧
        (program.signature element).form.adapts direction :=
    forall₂_congr fun element member => answer_adapts_eq_ok_iff sound (expandsElement member)
  rw [answer_adapts_eq_ok_iff sound ⟨scope, plain, opens, run⟩, elements]
  -- Both the faults and the form of the list are those of the elements in a row.
  simp only [signature, Signature.faults_ofChecked_eq_nil_iff, Signature.form_ofChecked, chain,
    Ty.value_normalize_chain]
  rw [Ty.faultsAt_normalize_chain _ (by decide), Ty.faultsAt_normalize_chain _ (by decide),
    Form.malformations_chain_eq_nil_iff (by rwa [List.length_map]), Form.adapts_list_iff]
  simp only [List.flatMap_eq_nil_iff, List.forall_mem_map, ← forall_and]

/-- How the lifetimes of a type in a signature change, and what its list nodes and guards add to that. -/
structure Covaries (program : Program) (type : Ty) (form : Form) : Prop where
  /-- A change of lifetimes is allowed, or refused for the lifetimes, as the references of the form stand. -/
  answer : ∀ direction, program.answer (.adapts direction type) =
    if form.adapts direction then .ok (.flag true) else .error .lifetime
  /-- No list node, boolean or guard is left where each has its fields in place of it. -/
  exposed : form.opened.Exposed
  /-- The fields allow the same changes by the rules of the other formers. -/
  fields : ∀ direction, form.opened.adapts direction = form.adapts direction
  /-- A change is allowed exactly if subtyping leads from the form at one lifetime to the form at the other. -/
  subtyped : ∀ direction, program.answer (.adapts direction type) = .ok (.flag true) ↔
    direction.Allows (form.living .static) form
  /-- The same holds of the fields, so that they have the subtypes that the formers have. -/
  fieldsSubtyped : ∀ direction, program.answer (.adapts direction type) = .ok (.flag true) ↔
    direction.Allows (form.opened.living .static) form.opened
  /-- A list changes as all of its elements do. -/
  elements : ∀ heads : List Form, form = heads.foldr .cons .nil → ∀ direction,
    (program.answer (.adapts direction type) = .ok (.flag true) ↔
      ∀ head ∈ heads, direction.Allows (head.living .static) head)
  /-- Both changes are allowed exactly if no reference in the form can change. -/
  both : (∀ direction, program.answer (.adapts direction type) = .ok (.flag true)) ↔ form.Lives .static
  /-- The references that are written in the type itself have the lifetime that changes. -/
  written : (∀ label, type.uses (.alias label) = []) → form.living .varying = form
  /-- Both changes are allowed for a type without aliases exactly if no reference is in it. -/
  bothWritten : (∀ label, type.uses (.alias label) = []) →
    ((∀ direction, program.answer (.adapts direction type) = .ok (.flag true)) ↔
      ∀ wrapper inner, form.Contains (.wrap wrapper inner) → ¬ wrapper.borrows)

/-- The changes of a type in a signature are those that its form allows, and that its fields allow. -/
theorem Signs.covaries (sound : program.Sound) (signs : program.Signs type form) :
    program.Covaries type form := by
  have answer (direction : Direction) : program.answer (.adapts direction type) =
      if form.adapts direction then .ok (.flag true) else .error .lifetime :=
    signs.answer_adapts sound direction
  have allowed (direction : Direction) :
      program.answer (.adapts direction type) = .ok (.flag true) ↔ form.adapts direction := by
    rw [answer]
    split <;> simp_all
  have both : (∀ direction, program.answer (.adapts direction type) = .ok (.flag true)) ↔
      form.Lives .static := by
    rw [← Form.living_eq_iff_lives, ← Form.adapts_both_iff]
    simp only [allowed]
    exact ⟨fun all => ⟨all .shorten, all .lengthen⟩, fun each direction => by
      cases direction
      · exact each.1
      · exact each.2⟩
  exact {
    answer
    exposed := form.exposed_opened
    fields := fun direction => Form.adapts_opened direction form
    subtyped := fun direction => (allowed direction).trans (form.adapts_iff_allows direction)
    fieldsSubtyped := fun direction => by
      rw [allowed, ← Form.adapts_opened, Form.adapts_iff_allows]
    elements := fun heads listed direction => by
      rw [allowed, listed, Form.adapts_list_iff]
      exact forall₂_congr fun head _ => head.adapts_iff_allows direction
    both
    written := fun unnamed => (Form.living_eq_iff_lives form).mpr (signs.lives unnamed)
    bothWritten := fun unnamed => both.trans (Form.lives_both_iff (signs.lives unnamed)) }

/--
List nodes and guards are covariant in everything that they carry, as their fields imply.

Every well-formed type can stand in a signature, where its lifetimes change as its fields and subtyping say,
and a list of types changes exactly if each of the types does.
-/
theorem list_nodes_and_guards_covary (sound : program.Sound) :
    (∀ {type form}, program.Gives type form →
      ∃ form', form'.SameButLifetimes form ∧ program.Signs type form') ∧
    (∀ {type form}, program.Signs type form → program.Covaries type form) ∧
    ∀ {tokens : List (Token Ty)} {types}, Literal.Writes tokens types →
      program.Expands (.list tokens) → ∀ direction,
        (program.answer (.adapts direction (.list tokens)) = .ok (.flag true) ↔
          ∀ element ∈ types, program.answer (.adapts direction element) = .ok (.flag true)) :=
  ⟨fun gives => gives.signs, fun signs => signs.covaries sound,
    fun writes expands direction => answer_adapts_list_iff sound writes expands direction⟩

/-- A list of borrowed text can be shortened as its element can, and cannot be lengthened. -/
theorem list_of_borrowed_text_covaries :
    bare.Covaries (.list [.element (.wrap (.ref .static) (.atom (.primitive .str)))])
        (.cons (.wrap (.ref .varying) (.atom (.primitive .str))) .nil) ∧
      bare.answer (.adapts .shorten (.wrap (.ref .static) (.atom (.primitive .str)))) =
        .ok (.flag true) ∧
      bare.answer (.adapts .lengthen
        (.list [.element (.wrap (.ref .static) (.atom (.primitive .str)))])) = .error .lifetime := by
  obtain ⟨all, covary, lists⟩ := list_nodes_and_guards_covary sound_bare
  have expands : bare.Expands (.list [.element (.wrap (.ref .static) (.atom (.primitive .str)))]) :=
    ⟨_, _, opens_bare, rfl⟩
  have covaries := covary ⟨expands, rfl, rfl⟩
  have shortens := (lists (Literal.writes_separated
    [Ty.wrap (.ref .static) (.atom (.primitive .str))]) expands .shorten).mp
      (covaries.answer .shorten) _ (List.mem_singleton_self _)
  exact ⟨covaries, shortens, covaries.answer .lengthen⟩

end Program

end TypeLists
