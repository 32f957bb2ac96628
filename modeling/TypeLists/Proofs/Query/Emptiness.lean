import TypeLists.Proofs.Form.Emptiness
import TypeLists.Proofs.Query.Naming

/-! Matches without arms: they cover the types of which it can be seen from outside that they have no values. No
list and no guard has one, but this can be seen of the ends of lists alone. -/

namespace TypeLists

/-- Whether a match without arms covers a form, if nothing is wrong with it. -/
def Form.covered (form : Form) : Answer :=
  if !form.sized then .error .illTyped
  else if form.visiblyEmpty then .ok (.flag true)
  else .error .inhabited

/-- A form is covered exactly if it is sized and can be seen to be empty. -/
theorem Form.covered_eq_ok_iff {form : Form} {value : Value} :
    form.covered = .ok value ↔ form.sized ∧ form.visiblyEmpty ∧ value = .flag true := by
  unfold covered
  cases form.sized <;> cases form.visiblyEmpty <;> simp [eq_comm]

/-- The form is looked at after the faults of its reduction, and before those of the rules that it breaks. -/
theorem Ty.matchEmpty_eq (scope : Scope) (type : Ty) : type.matchEmpty scope = (do
    Fault.refuse (scope.background ++ (Signature.ofChecked scope.limit (type.normalize scope)).reduction) ()
    let value ← (type.normalize scope).value.covered
    Fault.refuse (Signature.ofChecked scope.limit (type.normalize scope)).formation value) := by
  rw [matchEmpty, Fault.refuse_bind, Signature.form_ofChecked]
  congr 1
  funext _
  unfold Form.covered
  cases (type.normalize scope).value.sized <;> cases (type.normalize scope).value.visiblyEmpty <;> rfl

/--
A match without arms is accepted of no type that is not covered, even if nothing else is known of the type.
-/
theorem Ty.covered_of_matchEmpty {scope : Scope} {type : Ty} {value : Value}
    (accepted : type.matchEmpty scope = .ok value) :
    ∃ seen, (type.normalize scope).value.covered = .ok seen := by
  rw [matchEmpty_eq] at accepted
  -- Whatever is refused before the form is looked at is not accepted.
  cases reduced : Fault.refuse (scope.background ++
      (Signature.ofChecked scope.limit (type.normalize scope)).reduction) () with
  | error _ =>
    rw [reduced] at accepted
    cases accepted
  | ok _ =>
    cases covered : (type.normalize scope).value.covered with
    | error _ =>
      rw [reduced, covered] at accepted
      cases accepted
    | ok seen => exact ⟨seen, rfl⟩

namespace Program

variable {program : Program} {type : Ty} {form : Form}

/-- What is answered has expanded. -/
theorem fits_of_answer {query : Query} {value : Value} (answers : program.answer query = .ok value) :
    program.AliasesFit ∧ query.Fits program.limit := by
  rw [answer_eq] at answers
  refine expands_iff.mp ?_
  cases right : (program.expansion query).error? with
  | none => rfl
  | some _ =>
    rw [right] at answers
    cases answers

/-- A match without arms of a well-formed type is answered by its form alone. -/
theorem Gives.answer_matchEmpty (gives : program.Gives type form) (sound : program.Sound) :
    program.answer (.matchEmpty type) = form.covered := by
  obtain ⟨fit, fits, clean⟩ := gives_scope_iff.mp gives
  have signature : Signature.ofChecked program.scope.limit (type.normalize program.scope) = ⟨form, [], []⟩ := by
    have wellFormed : form.malformations program.limit = [] := gives.wellFormed.2
    rw [clean, Signature.ofChecked]
    simp [Checked.clean, Finding.faultsAt, Finding.cutOff, wellFormed]
  have expands : program.AliasesFit ∧ type.Fits program.limit 0 := ⟨fit, fits⟩
  rw [answer_of_fits expands, Query.answer, Ty.matchEmpty_eq, signature, clean, sound.background_scope]
  show (do
    let value ← form.covered
    Fault.refuse [] value) = form.covered
  cases form.covered <;> rfl

/-- What the values of a well-formed type are, and what a match without arms tells of them. -/
structure TellsEmptiness (program : Program) (type : Ty) (form : Form) : Prop where
  /-- A type is empty if no value of it can be built, whatever fields are filled in. -/
  empty_iff : form.empty ↔ ¬ form.HasValue
  /-- A list of any length is empty, and the match is accepted if nothing is in the list. -/
  lists : ∀ {kind length}, form.Chain kind length →
    form.empty ∧ (program.answer (.matchEmpty type) = .ok (.flag true) ↔ length = 0)
  /-- Nodes of lists, booleans and guards are empty, which the match does not see. -/
  hidden : form.Private → form.empty ∧ program.answer (.matchEmpty type) = .error .inhabited
  /-- Of a type without a size the match is refused, whether or not the type is empty. -/
  unsized : form.sized = false → program.answer (.matchEmpty type) = .error .illTyped
  /-- The match is only accepted of empty types. -/
  empty : program.answer (.matchEmpty type) = .ok (.flag true) → form.empty
  /-- A sized type without cells is accepted if it is empty behind masks, -/
  accepted_iff : form.sized → form.CellFree →
    (program.answer (.matchEmpty type) = .ok (.flag true) ↔ form.masked.empty)
  /-- and the match does not cover a sized type that is not accepted. -/
  refused : form.sized → program.answer (.matchEmpty type) ≠ .ok (.flag true) →
    program.answer (.matchEmpty type) = .error .inhabited

/-- A match without arms tells of a well-formed type what can be seen of its values. -/
theorem Gives.tellsEmptiness (gives : program.Gives type form) (sound : program.Sound) :
    program.TellsEmptiness type form := by
  have answer := gives.answer_matchEmpty sound
  constructor
  case empty_iff => exact form.empty_iff
  case lists =>
    intro kind length chain
    refine ⟨chain.empty, ?_⟩
    rw [answer, Form.covered_eq_ok_iff]
    cases chain <;> simp [Form.sized, Form.visiblyEmpty, Form.nil, Form.boolNil, Atom.sized]
  case hidden =>
    intro hidden
    refine ⟨form.empty_iff.mpr hidden.not_hasValue, ?_⟩
    rw [answer, Form.covered, hidden.unseen.1, hidden.unseen.2]
    rfl
  case unsized => exact fun unsized => by simp [answer, Form.covered, unsized]
  case empty =>
    intro accepted
    rw [answer, Form.covered_eq_ok_iff] at accepted
    exact form.empty_of_visiblyEmpty accepted.2.1
  case accepted_iff =>
    intro sized free
    rw [answer, Form.covered_eq_ok_iff, form.visiblyEmpty_eq free]
    simp [sized]
  case refused =>
    intro sized
    rw [answer, Form.covered]
    cases form.visiblyEmpty <;> simp [sized]

/--
No list and no guard has a value. A match without arms is only accepted of sized types without values, and it is
accepted of those that have none even if every list node, boolean and guard had some.
-/
theorem lists_and_guards_have_no_values (sound : program.Sound) :
    (∀ {type form}, program.Gives type form → program.TellsEmptiness type form) ∧
    ∀ {type value}, program.answer (.matchEmpty type) = .ok value →
      (type.normalize program.scope).value.sized ∧ ¬ (type.normalize program.scope).value.HasValue := by
  refine ⟨fun gives => gives.tellsEmptiness sound, fun {type value} accepted => ?_⟩
  rw [answer_of_fits (fits_of_answer accepted), Query.answer] at accepted
  obtain ⟨seen, covered⟩ := Ty.covered_of_matchEmpty accepted
  obtain ⟨sized, visible, _⟩ := Form.covered_eq_ok_iff.mp covered
  exact ⟨sized, (Form.empty_iff _).mp (Form.empty_of_visiblyEmpty _ visible)⟩

/--
A pair is accepted for its second component, a row of values of the empty list. Its first, a list of one
element, is not accepted by itself, and a pair with text is refused.
-/
theorem lists_and_guards_have_no_values_of_pairs :
    bare.answer (.matchEmpty (.tuple [.list [.element (.atom .notEvaluable)], .wrap (.array 2) .nil])) =
      .ok (.flag true) ∧
    ¬ (Form.tuple [.cons (.atom .notEvaluable) .nil, .wrap (.array 2) .nil]).HasValue ∧
    bare.answer (.matchEmpty (.list [.element (.atom .notEvaluable)])) = .error .inhabited ∧
    bare.answer (.matchEmpty (.tuple [.nil, .atom (.primitive .str)])) = .error .illTyped := by
  obtain ⟨tells, accepted⟩ := lists_and_guards_have_no_values sound_bare
  have pair : bare.Gives (.tuple [.list [.element (.atom .notEvaluable)], .wrap (.array 2) .nil])
    (.tuple [.cons (.atom .notEvaluable) .nil, .wrap (.array 2) .nil]) := ⟨_, _, opens_bare, rfl, rfl⟩
  have list : bare.Gives (.list [.element (.atom .notEvaluable)]) (.cons (.atom .notEvaluable) .nil) :=
    ⟨_, _, opens_bare, rfl, rfl⟩
  have text : bare.Gives (.tuple [.nil, .atom (.primitive .str)]) (.tuple [.nil, .atom (.primitive .str)]) :=
    ⟨_, _, opens_bare, rfl, rfl⟩
  have leaf (leaf : Atom) : (Form.atom leaf).CellFree := Form.cellFree_of_parts nofun nofun
  have free : (Form.tuple [.cons (.atom .notEvaluable) .nil, .wrap (.array 2) .nil]).CellFree := by
    refine Form.cellFree_of_parts nofun (List.forall_mem_cons.mpr ⟨?_, List.forall_mem_singleton.mpr ?_⟩)
    · exact Form.cellFree_of_parts nofun
        (List.forall_mem_cons.mpr ⟨leaf _, List.forall_mem_singleton.mpr (leaf _)⟩)
    · exact Form.cellFree_of_parts nofun (List.forall_mem_singleton.mpr (leaf _))
  have covered := ((tells pair).accepted_iff rfl free).mpr rfl
  exact ⟨covered, (accepted covered).2, ((tells list).hidden trivial).2, (tells text).unsized rfl⟩

end Program

end TypeLists
