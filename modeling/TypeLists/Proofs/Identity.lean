import TypeLists.Proofs.Form.Name
import TypeLists.Proofs.Normalization.Observation

/-! The identity of types: the assertion, the witness, the identity at run time and the printed names agree on
which types are the same. -/

namespace TypeLists

/-- Types differ for one reason at most, so that nothing is cut off. -/
theorem Form.cutOff_unlike (left right : Form) :
    Finding.cutOff (left.unlike right) = left.unlike right := by
  unfold unlike
  split <;> rfl

/-- Settled forms are unlike exactly if they are not equal. -/
theorem Form.unlike_eq {left right : Form} (settled : left.settled) (settled' : right.settled) :
    left.unlike right = if left = right then [] else [.illTyped] := by
  by_cases same : left = right <;> simp [unlike, settled, settled', same]

namespace Program

variable {program : Program} {left right type : Ty} {form form' : Form} {value : Value}

/-- A type has a name exactly if its program is in order and it has a normal form, whose name that is. -/
theorem answer_name_eq_ok_iff :
    program.answer (.name type) = .ok value ↔
      program.Sound ∧ ∃ form, program.Gives type form ∧ value = .text form.name := by
  -- A name is printed for a normal form, and only where nothing is wrong with the program.
  constructor
  · intro answered
    obtain ⟨scope, query, opens, expands, concluded⟩ := answer_eq_ok_iff.mp answered
    obtain ⟨plain, made, rfl⟩ := Expanding.run_map_eq_ok_iff.mp expands
    simp only [Query.answer, Scope.conclude_eq_ok_iff, Checked.bind_eq_clean_iff,
      Checked.pure_eq_clean_iff] at concluded
    obtain ⟨quiet, form, clean, rfl⟩ := concluded
    exact ⟨⟨scope, opens, quiet⟩, form, ⟨scope, plain, opens, made, clean⟩, rfl⟩
  · intro parts
    obtain ⟨sound, form, ⟨scope, plain, opens, expands, clean⟩, rfl⟩ := parts
    have query : Expanding.run program.limit (Query.name type).expand = .ok (.name plain) :=
      Expanding.run_map_eq_ok_iff.mpr ⟨plain, expands, rfl⟩
    rw [opens.answer_eq query, Query.answer, clean]
    exact Scope.conclude_clean (sound.background_eq_nil opens) _

/-- A normal form has a name of its own. -/
theorem Gives.nameable (gives : program.Gives type form) : form.Nameable program.limit :=
  ⟨gives.wellFormed, gives.lives⟩

/-- Forms are identified exactly if they are equal, and otherwise a rule is broken. -/
theorem identify_eq {scope : Scope} (quiet : scope.background = []) {plain plain' : Ty}
    (clean : plain.normalize scope = .clean form) (clean' : plain'.normalize scope = .clean form')
    (settled : form.settled) (settled' : form'.settled) :
    Ty.identify scope plain plain' =
      if form = form' then .ok (.flag true) else .error .illTyped := by
  have concluded := Scope.conclude_note quiet (form.cutOff_unlike form') (Value.flag true)
  rw [Ty.identify, clean, clean']
  -- What is noted is that the forms are unlike, if they are.
  refine concluded.trans ?_
  rw [Form.unlike_eq settled settled']
  split <;> rfl

/-- A query that identifies two types says so exactly if their normal forms are equal. -/
theorem Gives.answer_identify (sound : program.Sound) (gives : program.Gives left form)
    (gives' : program.Gives right form') (query : Ty → Ty → Query)
    (expand : ∀ left right, (query left right).expand = do
      return query (← left.expand 0) (← right.expand 0))
    (identifies : ∀ scope left right, (query left right).answer scope = Ty.identify scope left right) :
    program.answer (query left right) =
      if form = form' then .ok (.flag true) else .error .illTyped := by
  have settled := gives.wellFormed.settled not_false
  have settled' := gives'.wellFormed.settled not_false
  -- Both types are normalized in the one scope of the program.
  obtain ⟨scope, plain, opens, expands, clean⟩ := gives
  obtain ⟨other, plain', opens', expands', clean'⟩ := gives'
  cases opens.unique opens'
  have made : Expanding.run program.limit (query left right).expand = .ok (query plain plain') := by
    rw [expand]
    exact ((left.regular_expand.lawful 0).run_map₂_eq_ok_iff (right.regular_expand.lawful 0)).mpr
      ⟨plain, plain', expands, expands', rfl⟩
  rw [opens.answer_eq made, identifies]
  exact identify_eq (sound.background_eq_nil opens) clean clean' settled settled'

/-- The assertion that two types are the same holds exactly if their normal forms are equal. -/
theorem Gives.answer_assertSame (sound : program.Sound) (gives : program.Gives left form)
    (gives' : program.Gives right form') :
    program.answer (.assertSame left right) =
      if form = form' then .ok (.flag true) else .error .illTyped :=
  gives.answer_identify sound gives' .assertSame (fun _ _ => rfl) fun _ _ _ => rfl

/-- Two types have a witness that they are the same exactly if their normal forms are equal. -/
theorem Gives.answer_witness (sound : program.Sound) (gives : program.Gives left form)
    (gives' : program.Gives right form') :
    program.answer (.witness left right) =
      if form = form' then .ok (.flag true) else .error .illTyped :=
  gives.answer_identify sound gives' .witness (fun _ _ => rfl) fun _ _ _ => rfl

/--
Two types with names are asserted to be the same, have a witness that they are the same and have the same
identity exactly if their names are the same, and otherwise both the assertion and the witness break a rule.
-/
theorem identity_witnesses_agree {name name' : String}
    (named : program.answer (.name left) = .ok (.text name))
    (named' : program.answer (.name right) = .ok (.text name')) :
    (program.answer (.assertSame left right) = .ok (.flag true) ↔ name = name') ∧
      (program.answer (.witness left right) = .ok (.flag true) ↔ name = name') ∧
      (program.answer (.sameIdentity left right) = .ok (.flag true) ↔ name = name') ∧
      (name ≠ name' →
        program.answer (.assertSame left right) = .error .illTyped ∧
          program.answer (.witness left right) = .error .illTyped ∧
          program.answer (.sameIdentity left right) = .ok (.flag false)) := by
  obtain ⟨sound, form, gives, printed⟩ := answer_name_eq_ok_iff.mp named
  obtain ⟨_, form', gives', printed'⟩ := answer_name_eq_ok_iff.mp named'
  cases printed
  cases printed'
  -- All four are decided by the normal forms, which the names tell apart.
  rw [gives.answer_assertSame sound gives', gives.answer_witness sound gives',
    gives.answer_sameIdentity sound gives', gives.nameable.name_inj gives'.nameable]
  by_cases same : form = form' <;> simp [same]

/-- A tuple of one member is not its member, however the two are asked about. -/
theorem identity_witnesses_agree_of_tuple :
    bare.answer (.witness (.tuple [.nil]) .nil) = .error .illTyped ∧
      bare.answer (.sameIdentity (.tuple [.nil]) .nil) = .ok (.flag false) := by
  have tuple : bare.answer (.name (.tuple [.nil])) = .ok (.text "(tmppy::type_list::Nil,)") := rfl
  have nil : bare.answer (.name .nil) = .ok (.text "tmppy::type_list::Nil") := rfl
  exact ((identity_witnesses_agree tuple nil).2.2.2 (by decide)).2

end Program

end TypeLists
