import TypeLists.Proofs.Normalization.Context
import TypeLists.Proofs.Normalization.Progress

/-! Normal forms and what a program can observe: a type and what is written for its normal form are never told
apart, by a trait, a length, a value or a context, and types with different normal forms always are. -/

namespace TypeLists

namespace Program

variable {program : Program} {type other : Ty} {form : Form}

/-- The references in a normal form live as long as the program. -/
theorem Gives.lives (gives : program.Gives type form) : form.Lives .static := by
  obtain ⟨_, scope, opens, clean⟩ := gives_iff.mp gives
  rw [← opens.lifetime_eq]
  rw [opens.eq_ofAliases] at clean ⊢
  exact Ty.lives_normalize (fun name form inner => Scope.wellFormed_aliases inner)
    (fun name form inner => Scope.lives_aliases inner) type clean

/-- What is written for a normal form has that normal form. -/
theorem Gives.written (gives : program.Gives type form) : program.Gives form.written form := by
  have wellFormed := gives.wellFormed
  have lives := gives.lives
  obtain ⟨scope, plain, opens, _, _⟩ := gives
  rw [← opens.limit_eq] at wellFormed
  rw [← opens.lifetime_eq] at lives
  -- Without literals and names, nothing in it depends on the aliases.
  have expands : Expanding.run program.limit (form.written.expand 0) = .ok form.written := by
    rw [form.expand_written]
    rfl
  exact ⟨scope, form.written, opens, expands, form.normalize_written wellFormed lives⟩

/-- All literals in a type with a normal form, and in all aliases, are written by their grammar. -/
theorem Gives.shaped (gives : program.Gives type form) :
    type.Shaped ∧ ∀ definition ∈ program.aliases, definition.2.Shaped := by
  obtain ⟨scope, plain, ⟨aliases, expandsAliases, _⟩, expands, _⟩ := gives
  exact ⟨(((type.asks 0).run_eq_ok_iff plain).mp expands).1,
    ((program.asks_aliases.run_eq_ok_iff aliases).mp expandsAliases).1⟩

/-- A query that reads a type through its normal form alone answers alike for types with one normal form. -/
theorem Gives.answer_congr (gives : program.Gives type form) (gives' : program.Gives other form)
    (query : Ty → Query) (expand : ∀ type, (query type).expand = do return query (← type.expand 0))
    (reads : ∀ {scope type type'}, Ty.normalize scope type = type'.normalize scope →
      (query type).answer scope = (query type').answer scope) :
    program.answer (query type) = program.answer (query other) := by
  obtain ⟨scope, plain, opens, expands, clean⟩ := gives
  obtain ⟨scope', plain', opens', expands', clean'⟩ := gives'
  cases opens.unique opens'
  -- The query has the literals of its type, and no others.
  have made {type plain : Ty} (expands : Expanding.run program.limit (type.expand 0) = .ok plain) :
      Expanding.run program.limit (query type).expand = .ok (query plain) := by
    rw [expand]
    exact Expanding.run_map_eq_ok_iff.mpr ⟨plain, expands, rfl⟩
  rw [opens.answer_eq (made expands), opens.answer_eq (made expands')]
  exact reads (clean.trans clean'.symm)

/-- What a program observes of a type with a normal form, and of what is written for that form. -/
structure Represents (program : Program) (type : Ty) (form : Form) : Prop where
  /-- The type is reduced to what is written for the form. -/
  reaches : program.Reduces type form.written
  /-- Whatever is reduced first, the reduction can go on to the same end. -/
  joins : ∀ {middle}, program.Reduces type middle → program.Reduces middle form.written
  /-- No reduction goes on forever. -/
  ends : Acc (fun reduced type => program.Step type reduced) type
  /-- The end takes no further step. -/
  stops : ∀ {next}, ¬ program.Step form.written next
  /-- No literal, name or projection is left anywhere in it, and no constant but booleans. -/
  reduced : form.written.Reduced
  /-- It is well-formed, and its own normal form. -/
  gives : program.Gives form.written form
  /-- It implements the traits of the type, that of sized types among them, and lacks the others alike. -/
  implements : ∀ trait,
    program.answer (.implements trait form.written) = program.answer (.implements trait type)
  /-- It has the length of the type, as a list of either kind. -/
  length : ∀ kind, program.answer (.length kind form.written) = program.answer (.length kind type)
  /-- It has the value of the type, or fails as the type does. -/
  value : ∀ place, program.answer (.value place (.mention .value form.written)) =
    program.answer (.value place (.mention .value type))
  /-- Types are the same exactly if their normal forms are. -/
  identity : program.Sound → ∀ {other form'}, program.Gives other form' →
    program.answer (.sameIdentity type other) = .ok (.flag (form = form'))
  /-- A type with the same normal form can stand for the type in every context, to the same effect. -/
  fills : ∀ {context : Ty} {name other whole}, program.Gives other form →
    program.Expands (context.fill name other) → program.Gives (context.fill name type) whole →
      program.Gives (context.fill name other) whole ∧ (program.Sound →
        program.answer (.sameIdentity (context.fill name type) (context.fill name other)) =
          .ok (.flag true))

/--
A type is reduced to its normal form, in whatever order it is reduced, and the two are never told apart.
-/
theorem normal_form_represents (gives : program.Gives type form) :
    program.Represents type form := by
  obtain ⟨shaped, aliases⟩ := gives.shaped
  obtain ⟨_, scope, opens, clean⟩ := gives_iff.mp gives
  -- Nothing is left to reduce in what is written, and it is answered for as the type is.
  have reduced := gives.wellFormed.reduced_written gives.lives
  exact {
    reaches := reduces_written opens aliases shaped clean
    joins := fun reduces =>
      reduces_written opens aliases (reduces.shaped aliases shaped) (reduces.normalize opens clean)
    ends := acc_step opens clean
    stops := fun step => step.not_reduced reduced
    reduced
    gives := gives.written
    implements := fun trait => gives.written.answer_congr gives (.implements trait) (fun _ => rfl)
      fun same => by simp only [Query.answer, same]
    length := fun kind => gives.written.answer_congr gives (.length kind) (fun _ => rfl)
      fun same => by simp only [Query.answer, same]
    value := fun place => gives.written.answer_congr gives
      (fun type => .value place (.mention .value type)) (fun _ => rfl)
      fun same => by cases place <;> simp only [Query.answer, Constant.normalize, same]
    identity := fun sound => gives.answer_sameIdentity sound
    fills := fun gives' expands filled => by
      have filled' := gives.fill gives' expands filled
      exact ⟨filled', fun sound => by rw [filled.answer_sameIdentity sound filled', decide_eq_true rfl]⟩ }

/-- A choice behind a computed condition is reduced to what its branch delays, and is as long as that. -/
theorem normal_form_represents_choice :
    bare.Reduces
        (.select (.choice (.bool (.not (.literal false))) (.wrap .thunk (.list [.element .nil])) .nil))
        (.cons .nil .nil) ∧
      bare.answer (.length .types (.cons .nil .nil)) = bare.answer (.length .types
        (.select (.choice (.bool (.not (.literal false))) (.wrap .thunk (.list [.element .nil])) .nil))) := by
  have gives : bare.Gives
      (.select (.choice (.bool (.not (.literal false))) (.wrap .thunk (.list [.element .nil])) .nil))
      (.cons .nil .nil) := ⟨_, _, opens_bare, rfl, rfl⟩
  have represents := normal_form_represents gives
  exact ⟨represents.reaches, represents.length .types⟩

end Program

end TypeLists
