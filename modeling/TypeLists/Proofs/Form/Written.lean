import TypeLists.Proofs.Parts

/-! Normal forms as written types: a form can be written without literals, names, projections and
computed constants, and what is written so is its own normal form. -/

namespace TypeLists

mutual

/-- The form as a type that is written without anything to reduce. -/
def Form.written : Form → Ty
  -- A form with holes stands for no written type, so that anything can stand in their places.
  | .atom leaf => .atom leaf
  | .wrap wrapper inner => .wrap wrapper inner.written
  | .cons head tail => .cons head.written tail.written
  | .combine combinator left right => .combine combinator left.written right.written
  | .choice condition positive negative =>
    .choice condition.written positive.written negative.written
  | .tuple members => .tuple (Form.allWritten members)
  | .function arguments result => .function (Form.allWritten arguments) result.written
  | .bool value => .bool (.literal (value.getD false))
  | .boolCons value tail => .boolCons (.literal (value.getD false)) tail.written
  | .hole _ => .named (.param .type)

/-- Some forms as written types. -/
def Form.allWritten : List Form → List Ty
  | [] => []
  | head :: rest => head.written :: Form.allWritten rest

end

/-- Some forms are written one by one. -/
theorem Form.allWritten_eq (forms : List Form) : Form.allWritten forms = forms.map Form.written := by
  induction forms with
  | nil => rfl
  | cons head rest ih => rw [Form.allWritten, ih, List.map_cons]

/--
The type is no literal, no name and no projection, its constant is a boolean, if it has one, and it lives as
long as the program, if it is a reference.
-/
def Ty.Irreducible : Ty → Prop
  | .list _ | .boolList _ | .named _ | .output _ | .select _ => False
  | .wrap wrapper _ => wrapper.living .static = wrapper
  | .bool constant | .boolCons constant _ => ∃ value, constant = .literal value
  | _ => True

/-- Nothing in the type can be reduced. -/
def Ty.Reduced (type : Ty) : Prop :=
  ∀ part, type.Contains part → part.Irreducible

namespace Form

/-- The parts of a form are written as parts of what is written for the form. -/
theorem parts_written (form : Form) : form.written.parts = form.parts.map written := by
  cases form with
  | tuple members => exact allWritten_eq members
  | function arguments result => simp [written, Ty.parts, parts, allWritten_eq]
  | _ => rfl

/-- Whatever stands in what is written for a form is written for something in the form. -/
theorem exists_of_contains_written {form : Form} {part : Ty} (contains : form.written.Contains part) :
    ∃ inner, form.Contains inner ∧ part = inner.written := by
  -- The way to the part is a way through the form as well.
  generalize same : form.written = whole at contains
  induction contains generalizing form with
  | itself type => exact ⟨form, .itself form, same.symm⟩
  | within member _ ih =>
    rw [← same, parts_written] at member
    obtain ⟨next, inside, written⟩ := List.mem_map.mp member
    obtain ⟨inner, contains, rfl⟩ := ih written
    exact ⟨inner, .within inside contains, rfl⟩

/-- All references in the form live as long as is said. -/
def Lives (lifetime : Lifetime) (form : Form) : Prop :=
  ∀ wrapper inner, form.Contains (.wrap wrapper inner) → wrapper.living lifetime = wrapper

/-- Nothing is left to reduce in what is written for a form without holes that lives long enough. -/
theorem WellFormed.reduced_written {limit : Nat} {form : Form}
    (wellFormed : form.WellFormed (fun _ => False) limit) (lives : form.Lives .static) :
    form.written.Reduced := by
  intro part contains
  obtain ⟨inner, inside, rfl⟩ := exists_of_contains_written contains
  have whole := (wellFormed.contains inside).1
  -- Of what could be reduced, a form has lifetimes and unknowns at most, and neither is left here.
  cases inner with
  | wrap wrapper inner => exact lives wrapper inner inside
  | hole cause => exact (whole cause (List.mem_singleton_self cause)).elim
  | bool value => exact ⟨_, rfl⟩
  | boolCons value tail => exact ⟨_, rfl⟩
  | _ => trivial

variable {lifetime : Lifetime}

/-- The parts of a form live as long as the form. -/
theorem Lives.part {whole part : Form} (lives : whole.Lives lifetime) (member : part ∈ whole.parts) :
    part.Lives lifetime := fun wrapper inner contains =>
  lives wrapper inner (.within member contains)

/-- A form that is no reference lives as long as its parts. -/
theorem lives_of_parts {form : Form} (plain : ∀ wrapper inner, form ≠ .wrap wrapper inner)
    (parts : ∀ part ∈ form.parts, part.Lives lifetime) : form.Lives lifetime := by
  intro wrapper inner contains
  cases contains with
  | itself => exact absurd rfl (plain wrapper inner)
  | within member contains => exact parts _ member wrapper inner contains

/-- A former that was made to live as long as is said lives as long as its parameter. -/
theorem Lives.wrap {inner : Form} (lives : inner.Lives lifetime) (wrapper : Wrapper) :
    (Form.wrap (wrapper.living lifetime) inner).Lives lifetime := by
  intro other part contains
  -- The former has its lifetime from the scope, and its parameter has had its own before.
  cases contains with
  | itself => cases wrapper <;> rfl
  | within member contains =>
    cases List.mem_singleton.mp member
    exact lives other part contains

/-- What a delayed type gives back lives as long as the delayed type. -/
theorem Lives.output {form inner : Form} (lives : form.Lives lifetime)
    (gives : form.output? = some inner) : inner.Lives lifetime := by
  unfold output? at gives
  split at gives
  · cases gives
    exact lives.part (List.mem_singleton_self _)
  · cases gives

/-- What a choice gives back lives as long as the choice. -/
theorem Lives.select {form inner : Form} (lives : form.Lives lifetime)
    (gives : form.select? = some inner) : inner.Lives lifetime := by
  unfold select? at gives
  -- Either branch may be the one that is chosen.
  split at gives
  · split at gives
    · exact (lives.part (by simp [parts])).output gives
    · cases gives
  · split at gives
    · exact (lives.part (by simp [parts])).output gives
    · cases gives
  · cases gives

end Form

section Normalize

variable {scope : Scope}

mutual

/-- The references in a normal form live as long as the scope says, if those of its names do. -/
theorem Ty.lives_normalize (known : scope.WellFormed fun _ => False)
    (names : ∀ name form, scope.meaning name = .clean form → form.Lives scope.lifetime) :
    ∀ (type : Ty) {form : Form}, type.normalize scope = .clean form → form.Lives scope.lifetime
  -- A reference gets its lifetime where it is formed, and projections give parts of what was formed.
  | .atom leaf, form, clean => by
    simp only [Ty.normalize, Checked.pure_eq_clean_iff] at clean
    subst clean
    exact Form.lives_of_parts nofun nofun
  | .wrap wrapper inner, form, clean => by
    simp only [Ty.normalize, Checked.bind_eq_clean_iff, Form.wrapped_eq_clean_iff] at clean
    obtain ⟨inner', innerClean, _, _, rfl⟩ := clean
    exact (Ty.lives_normalize known names inner innerClean).wrap wrapper
  | .cons head tail, form, clean => by
    simp only [Ty.normalize, Checked.bind_eq_clean_iff, Form.formed_eq_clean_iff] at clean
    obtain ⟨head', headClean, tail', tailClean, _, rfl⟩ := clean
    refine Form.lives_of_parts nofun ?_
    simp only [Form.parts, List.forall_mem_cons]
    exact ⟨Ty.lives_normalize known names head headClean,
      Ty.lives_normalize known names tail tailClean, nofun⟩
  | .combine combinator left right, form, clean => by
    simp only [Ty.normalize, Checked.bind_eq_clean_iff, Form.formed_eq_clean_iff] at clean
    obtain ⟨left', leftClean, right', rightClean, _, rfl⟩ := clean
    refine Form.lives_of_parts nofun ?_
    simp only [Form.parts, List.forall_mem_cons]
    exact ⟨Ty.lives_normalize known names left leftClean,
      Ty.lives_normalize known names right rightClean, nofun⟩
  | .choice condition positive negative, form, clean => by
    simp only [Ty.normalize, Checked.bind_eq_clean_iff, Form.formed_eq_clean_iff] at clean
    obtain ⟨condition', conditionClean, positive', positiveClean, negative', negativeClean, _,
      rfl⟩ := clean
    refine Form.lives_of_parts nofun ?_
    simp only [Form.parts, List.forall_mem_cons]
    exact ⟨Ty.lives_normalize known names condition conditionClean,
      Ty.lives_normalize known names positive positiveClean,
      Ty.lives_normalize known names negative negativeClean, nofun⟩
  | .tuple members, form, clean => by
    simp only [Ty.normalize, Checked.bind_eq_clean_iff, Form.formed_eq_clean_iff] at clean
    obtain ⟨members', membersClean, _, rfl⟩ := clean
    exact Form.lives_of_parts nofun (Ty.lives_normalizeAll known names members membersClean)
  | .function arguments result, form, clean => by
    simp only [Ty.normalize, Checked.bind_eq_clean_iff, Form.formed_eq_clean_iff] at clean
    obtain ⟨arguments', argumentsClean, result', resultClean, _, rfl⟩ := clean
    refine Form.lives_of_parts nofun ?_
    simp only [Form.parts, List.forall_mem_append, List.forall_mem_singleton]
    exact ⟨Ty.lives_normalizeAll known names arguments argumentsClean,
      Ty.lives_normalize known names result resultClean⟩
  | .bool constant, form, clean => by
    simp only [Ty.normalize, Checked.bind_eq_clean_iff, Form.formed_eq_clean_iff] at clean
    obtain ⟨value, _, _, rfl⟩ := clean
    exact Form.lives_of_parts nofun nofun
  | .boolCons constant tail, form, clean => by
    simp only [Ty.normalize, Checked.bind_eq_clean_iff, Form.formed_eq_clean_iff] at clean
    obtain ⟨value, _, tail', tailClean, _, rfl⟩ := clean
    refine Form.lives_of_parts nofun ?_
    simp only [Form.parts, List.forall_mem_singleton]
    exact Ty.lives_normalize known names tail tailClean
  | .list tokens, form, clean =>
    Ty.lives_normalizeTokens known names tokens (by simpa only [Ty.normalize] using clean)
  | .boolList tokens, form, clean =>
    Constant.lives_normalizeTokens known names tokens (by simpa only [Ty.normalize] using clean)
  | .output subject, form, clean => by
    simp only [Ty.normalize, Checked.bind_eq_clean_iff] at clean
    obtain ⟨subject', subjectClean, projected⟩ := clean
    have settled := (Ty.wellFormed_normalize not_false known subject subjectClean).settled not_false
    rw [Form.projected_eq_clean_iff settled] at projected
    obtain ⟨⟨_, implements⟩, rfl⟩ := projected
    obtain ⟨result, gives⟩ := Option.isSome_iff_exists.mp implements
    rw [gives]
    exact (Ty.lives_normalize known names subject subjectClean).output gives
  | .select subject, form, clean => by
    simp only [Ty.normalize, Checked.bind_eq_clean_iff] at clean
    obtain ⟨subject', subjectClean, projected⟩ := clean
    have settled := (Ty.wellFormed_normalize not_false known subject subjectClean).settled not_false
    rw [Form.projected_eq_clean_iff settled] at projected
    obtain ⟨⟨_, implements⟩, rfl⟩ := projected
    obtain ⟨result, gives⟩ := Option.isSome_iff_exists.mp implements
    rw [gives]
    exact (Ty.lives_normalize known names subject subjectClean).select gives
  | .named name, form, clean => names name form (by simpa only [Ty.normalize] using clean)

/-- The references in some normal forms live as long as the scope says. -/
theorem Ty.lives_normalizeAll (known : scope.WellFormed fun _ => False)
    (names : ∀ name form, scope.meaning name = .clean form → form.Lives scope.lifetime) :
    ∀ (types : List Ty) {forms : List Form}, Ty.normalizeAll scope types = .clean forms →
      ∀ form ∈ forms, form.Lives scope.lifetime
  -- Every one of the forms comes from a type of its own.
  | [], forms, clean => by
    simp only [Ty.normalizeAll, Checked.pure_eq_clean_iff] at clean
    subst clean
    nofun
  | head :: rest, forms, clean => by
    simp only [Ty.normalizeAll, Checked.bind_eq_clean_iff, Checked.pure_eq_clean_iff] at clean
    obtain ⟨head', headClean, rest', restClean, rfl⟩ := clean
    exact List.forall_mem_cons.mpr ⟨Ty.lives_normalize known names head headClean,
      Ty.lives_normalizeAll known names rest restClean⟩

/-- The references in the chain of a type list live as long as the scope says. -/
theorem Ty.lives_normalizeTokens (known : scope.WellFormed fun _ => False)
    (names : ∀ name form, scope.meaning name = .clean form → form.Lives scope.lifetime) :
    ∀ (tokens : List (Token Ty)) {form : Form}, Ty.normalizeTokens scope tokens = .clean form →
      form.Lives scope.lifetime
  -- The nodes of a chain are no references, so that its elements alone play a part.
  | [], form, clean => by
    simp only [Ty.normalizeTokens, Checked.pure_eq_clean_iff] at clean
    subst clean
    exact Form.lives_of_parts nofun nofun
  | .comma :: rest, form, clean =>
    Ty.lives_normalizeTokens known names rest (by simpa only [Ty.normalizeTokens] using clean)
  | .element head :: rest, form, clean => by
    simp only [Ty.normalizeTokens, Checked.bind_eq_clean_iff, Form.formed_eq_clean_iff] at clean
    obtain ⟨head', headClean, tail, tailClean, _, rfl⟩ := clean
    refine Form.lives_of_parts nofun ?_
    simp only [Form.parts, List.forall_mem_cons]
    exact ⟨Ty.lives_normalize known names head headClean,
      Ty.lives_normalizeTokens known names rest tailClean, nofun⟩

/-- The chain of a boolean list has no references in it. -/
theorem Constant.lives_normalizeTokens (known : scope.WellFormed fun _ => False)
    (names : ∀ name form, scope.meaning name = .clean form → form.Lives scope.lifetime) :
    ∀ (tokens : List (Token (Constant Ty))) {form : Form},
      Constant.normalizeTokens scope tokens = .clean form → form.Lives scope.lifetime
  -- Nodes of booleans refer to nothing.
  | [], form, clean => by
    simp only [Constant.normalizeTokens, Checked.pure_eq_clean_iff] at clean
    subst clean
    exact Form.lives_of_parts nofun nofun
  | .comma :: rest, form, clean =>
    Constant.lives_normalizeTokens known names rest
      (by simpa only [Constant.normalizeTokens] using clean)
  | .element head :: rest, form, clean => by
    simp only [Constant.normalizeTokens, Checked.bind_eq_clean_iff,
      Form.formed_eq_clean_iff] at clean
    obtain ⟨value, _, tail, tailClean, _, rfl⟩ := clean
    refine Form.lives_of_parts nofun ?_
    simp only [Form.parts, List.forall_mem_singleton]
    exact Constant.lives_normalizeTokens known names rest tailClean

end

/-- The references in what an alias stands for live as long as the program. -/
theorem Scope.lives_aliases {limit depth : Nat} {definitions : List (String × Ty)}
    {name : TypeName} {form : Form}
    (clean : Scope.aliases limit depth definitions name = .clean form) : form.Lives .static := by
  -- The induction is on the bound: inside of an alias, names stand one level lower.
  induction depth generalizing definitions name form with
  | zero => exact absurd clean circular_ne_clean
  | succ depth ih =>
    rcases name with name | param
    · unfold aliases at clean
      split at clean
      · rename_i body found
        exact Ty.lives_normalize (fun name form inner => wellFormed_aliases inner)
          (fun name form inner => ih inner) body clean
      · exact absurd clean circular_ne_clean
    · exact absurd clean circular_ne_clean

namespace Form

/-- A form without holes is closed. -/
theorem closed_of_holes {form : Form} (whole : ∀ hole ∈ form.holes, False) : form.closed := by
  simp only [closed, List.all_eq_true]
  intro hole inside
  exact (whole hole inside).elim

mutual

/-- What is written for a well-formed form is normalized to that form, with nothing to find. -/
theorem normalize_written : ∀ (form : Form), form.WellFormed (fun _ => False) scope.limit →
    form.Lives scope.lifetime → form.written.normalize scope = .clean form
  -- All requirements are those of the form itself, which are met.
  | .atom leaf, _, _ => rfl
  | .wrap wrapper inner, wellFormed, lives => by
    obtain ⟨innerFormed, rules⟩ := wellFormed_wrap_iff.mp wellFormed
    have kept := lives wrapper inner (.itself _)
    simp only [written, Ty.normalize, Checked.bind_eq_clean_iff, wrapped_eq_clean_iff, kept]
    exact ⟨inner, normalize_written inner innerFormed (lives.part (List.mem_singleton_self _)),
      fun _ => closed_of_holes innerFormed.1, rules, rfl⟩
  | .cons head tail, wellFormed, lives => by
    obtain ⟨headFormed, tailFormed, rules⟩ := wellFormed_cons_iff.mp wellFormed
    simp only [written, Ty.normalize, Checked.bind_eq_clean_iff, formed_eq_clean_iff]
    exact ⟨head, normalize_written head headFormed (lives.part (by simp [parts])),
      tail, normalize_written tail tailFormed (lives.part (by simp [parts])), rules, rfl⟩
  | .combine combinator left right, wellFormed, lives => by
    obtain ⟨leftFormed, rightFormed, rules⟩ := wellFormed_combine_iff.mp wellFormed
    simp only [written, Ty.normalize, Checked.bind_eq_clean_iff, formed_eq_clean_iff]
    exact ⟨left, normalize_written left leftFormed (lives.part (by simp [parts])),
      right, normalize_written right rightFormed (lives.part (by simp [parts])), rules, rfl⟩
  | .choice condition positive negative, wellFormed, lives => by
    obtain ⟨conditionFormed, positiveFormed, negativeFormed, rules⟩ :=
      wellFormed_choice_iff.mp wellFormed
    simp only [written, Ty.normalize, Checked.bind_eq_clean_iff, formed_eq_clean_iff]
    exact ⟨condition, normalize_written condition conditionFormed (lives.part (by simp [parts])),
      positive, normalize_written positive positiveFormed (lives.part (by simp [parts])),
      negative, normalize_written negative negativeFormed (lives.part (by simp [parts])), rules, rfl⟩
  | .tuple members, wellFormed, lives => by
    obtain ⟨membersFormed, rules⟩ := wellFormed_tuple_iff.mp wellFormed
    simp only [written, Ty.normalize, Checked.bind_eq_clean_iff, formed_eq_clean_iff]
    exact ⟨members, normalizeAll_written members membersFormed fun member inside => lives.part inside,
      rules, rfl⟩
  | .function arguments result, wellFormed, lives => by
    obtain ⟨argumentsFormed, resultFormed⟩ := wellFormed_function_iff.mp wellFormed
    simp only [written, Ty.normalize, Checked.bind_eq_clean_iff, formed_eq_clean_iff]
    exact ⟨arguments, normalizeAll_written arguments argumentsFormed
        fun argument inside => lives.part (List.mem_append_left _ inside),
      result, normalize_written result resultFormed (lives.part (by simp [parts])), rfl, rfl⟩
  | .bool (some value), _, _ => rfl
  | .bool none, wellFormed, _ => (wellFormed.1 .lost (by simp [holes])).elim
  | .boolCons (some value) tail, wellFormed, lives => by
    obtain ⟨tailFormed, rules⟩ := wellFormed_boolCons_some_iff.mp wellFormed
    simp only [written, Ty.normalize, Checked.bind_eq_clean_iff, formed_eq_clean_iff]
    exact ⟨some value, rfl,
      tail, normalize_written tail tailFormed (lives.part (List.mem_singleton_self _)), rules, rfl⟩
  | .boolCons none tail, wellFormed, _ => (wellFormed.1 .lost (by simp [holes])).elim
  | .hole cause, wellFormed, _ => (wellFormed.1 cause (List.mem_singleton_self _)).elim

/-- What is written for some well-formed forms is normalized to these forms. -/
theorem normalizeAll_written : ∀ (forms : List Form),
    (∀ form ∈ forms, form.WellFormed (fun _ => False) scope.limit) →
    (∀ form ∈ forms, form.Lives scope.lifetime) →
      Ty.normalizeAll scope (allWritten forms) = .clean forms
  -- The forms are written and normalized one by one.
  | [], _, _ => rfl
  | head :: rest, wellFormed, lives => by
    simp only [allWritten, Ty.normalizeAll, Checked.bind_eq_clean_iff, Checked.pure_eq_clean_iff]
    exact ⟨head, normalize_written head (wellFormed head (List.mem_cons_self ..))
        (lives head (List.mem_cons_self ..)),
      rest, normalizeAll_written rest (fun form inside => wellFormed form (List.mem_cons_of_mem _ inside))
        (fun form inside => lives form (List.mem_cons_of_mem _ inside)), rfl⟩

end

end Form

end Normalize

mutual

/-- What is written for a form has no literals to expand. -/
theorem Form.expand_written : ∀ (form : Form) (depth : Nat),
    form.written.expand depth = return form.written
  -- The expansion only looks for literals, and comes back with what it was given.
  | .atom _, _ | .hole _, _ => rfl
  | .wrap _ inner, depth => by
    simp only [Form.written, Ty.expand, inner.expand_written depth, pure_bind]
  | .cons head tail, depth => by
    simp only [Form.written, Ty.expand, head.expand_written depth, tail.expand_written depth,
      pure_bind]
  | .combine _ left right, depth => by
    simp only [Form.written, Ty.expand, left.expand_written depth, right.expand_written depth,
      pure_bind]
  | .choice condition positive negative, depth => by
    simp only [Form.written, Ty.expand, condition.expand_written depth,
      positive.expand_written depth, negative.expand_written depth, pure_bind]
  | .tuple members, depth => by
    simp only [Form.written, Ty.expand, Form.expandAll_written members depth, pure_bind]
  | .function arguments result, depth => by
    simp only [Form.written, Ty.expand, Form.expandAll_written arguments depth,
      result.expand_written depth, pure_bind]
  | .bool _, _ => rfl
  | .boolCons _ tail, depth => by
    simp only [Form.written, Ty.expand, Constant.expand, tail.expand_written depth, pure_bind]

/-- What is written for some forms has no literals to expand. -/
theorem Form.expandAll_written : ∀ (forms : List Form) (depth : Nat),
    Ty.expandAll (Form.allWritten forms) depth = return Form.allWritten forms
  | [], _ => rfl
  | head :: rest, depth => by
    simp only [Form.allWritten, Ty.expandAll, head.expand_written depth,
      Form.expandAll_written rest depth, pure_bind]

end

end TypeLists
