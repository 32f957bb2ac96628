import TypeLists.Proofs.Findings

/-! Well-formed forms: their holes are known, and every former in them has its requirements met. -/

namespace TypeLists

namespace Form

/-- All holes of the form are allowed, and nothing is wrong with the formers in it. -/
def WellFormed (allowed : Hole → Prop) (limit : Nat) (form : Form) : Prop :=
  (∀ hole ∈ form.holes, allowed hole) ∧ form.malformations limit = []

/-- A requirement on a settled form is met exactly if it implements the trait within the limit. -/
theorem unmet_eq_nil_iff {limit : Nat} {trait : Trait} {form : Form} (settled : form.settled) :
    form.unmet limit trait = [] ↔ form.proofDepth trait ≤ limit ∧ form.implements trait := by
  -- A settled form is held against the limit first, and against the trait after that.
  simp only [unmet, settled, Bool.not_true, Bool.false_eq_true, if_false]
  split
  · rename_i deep
    exact iff_of_false (by simp) (by omega)
  · rename_i shallow
    split
    · rename_i implements
      exact iff_of_true rfl ⟨by omega, implements⟩
    · rename_i lacks
      simp [lacks]

/-- Nothing is lost in a form if no hole of that kind is allowed. -/
theorem settled_of_holes {allowed : Hole → Prop} (known : ¬ allowed .lost) {form : Form}
    (holes : ∀ hole ∈ form.holes, allowed hole) : form.settled := by
  -- A lost part would be a hole that is not allowed.
  simp only [settled, List.all_eq_true, decide_eq_true_eq]
  intro hole member same
  exact known (same ▸ holes hole member)

theorem WellFormed.settled {allowed : Hole → Prop} (known : ¬ allowed .lost) {limit : Nat}
    {form : Form} (wellFormed : form.WellFormed allowed limit) : form.settled :=
  settled_of_holes known wellFormed.1

theorem allHoles_eq (forms : List Form) : allHoles forms = forms.flatMap holes := by
  induction forms with
  | nil => rfl
  | cons head rest ih => rw [allHoles, ih, List.flatMap_cons]

theorem allMalformations_eq (limit : Nat) (forms : List Form) :
    allMalformations limit forms = forms.flatMap (malformations limit) := by
  induction forms with
  | nil => rfl
  | cons head rest ih => rw [allMalformations, ih, List.flatMap_cons]

variable {allowed : Hole → Prop} {limit : Nat}

-- What is well-formed is read off former by former, by the equations of these functions.
attribute [local simp] WellFormed holes malformations malformed

@[simp] theorem wellFormed_atom (leaf : Atom) : (Form.atom leaf).WellFormed allowed limit := by
  simp

@[simp] theorem wellFormed_wrap_iff {wrapper : Wrapper} {inner : Form} :
    (Form.wrap wrapper inner).WellFormed allowed limit ↔
      inner.WellFormed allowed limit ∧ (Form.wrap wrapper inner).malformed limit = [] := by
  simp [and_assoc]

@[simp] theorem wellFormed_cons_iff {head tail : Form} :
    (Form.cons head tail).WellFormed allowed limit ↔
      head.WellFormed allowed limit ∧ tail.WellFormed allowed limit ∧
        (Form.cons head tail).malformed limit = [] := by
  simp only [WellFormed, holes, malformations, List.mem_append, List.append_eq_nil_iff]
  grind

@[simp] theorem wellFormed_combine_iff {combinator : Combinator} {left right : Form} :
    (Form.combine combinator left right).WellFormed allowed limit ↔
      left.WellFormed allowed limit ∧ right.WellFormed allowed limit ∧
        (Form.combine combinator left right).malformed limit = [] := by
  simp only [WellFormed, holes, malformations, List.mem_append, List.append_eq_nil_iff]
  grind

@[simp] theorem wellFormed_choice_iff {condition positive negative : Form} :
    (Form.choice condition positive negative).WellFormed allowed limit ↔
      condition.WellFormed allowed limit ∧ positive.WellFormed allowed limit ∧
        negative.WellFormed allowed limit ∧
        (Form.choice condition positive negative).malformed limit = [] := by
  simp only [WellFormed, holes, malformations, List.mem_append, List.append_eq_nil_iff]
  grind

@[simp] theorem wellFormed_tuple_iff {members : List Form} :
    (Form.tuple members).WellFormed allowed limit ↔
      (∀ member ∈ members, member.WellFormed allowed limit) ∧
        (Form.tuple members).malformed limit = [] := by
  simp only [WellFormed, holes, malformations, allHoles_eq, allMalformations_eq,
    List.mem_flatMap, List.append_eq_nil_iff, List.flatMap_eq_nil_iff]
  grind

@[simp] theorem wellFormed_function_iff {arguments : List Form} {result : Form} :
    (Form.function arguments result).WellFormed allowed limit ↔
      (∀ argument ∈ arguments, argument.WellFormed allowed limit) ∧
        result.WellFormed allowed limit := by
  simp only [WellFormed, holes, malformations, allHoles_eq, allMalformations_eq,
    List.mem_append, List.mem_flatMap, List.append_eq_nil_iff, List.flatMap_eq_nil_iff]
  grind

@[simp] theorem wellFormed_bool_some (value : Bool) :
    (Form.bool (some value)).WellFormed allowed limit := by
  simp

@[simp] theorem wellFormed_boolCons_some_iff {value : Bool} {tail : Form} :
    (Form.boolCons (some value) tail).WellFormed allowed limit ↔
      tail.WellFormed allowed limit ∧ (Form.boolCons (some value) tail).malformed limit = [] := by
  simp [and_assoc]

/-- What a delayed type gives back is as well-formed as the delayed type. -/
theorem WellFormed.output {form inner : Form} (wellFormed : form.WellFormed allowed limit)
    (gives : form.output? = some inner) : inner.WellFormed allowed limit := by
  -- Nothing but a delayed type has an output, and that is its parameter.
  unfold output? at gives
  split at gives
  · cases gives
    exact (wellFormed_wrap_iff.mp wellFormed).1
  · cases gives

/-- What a choice gives back is as well-formed as the choice. -/
theorem WellFormed.select {form inner : Form} (wellFormed : form.WellFormed allowed limit)
    (gives : form.select? = some inner) : inner.WellFormed allowed limit := by
  unfold select? at gives
  -- Either branch may be the one that is chosen.
  split at gives
  · rename_i positive negative
    have branches := wellFormed_choice_iff.mp wellFormed
    split at gives
    · exact branches.2.1.output gives
    · cases gives
  · rename_i positive negative
    have branches := wellFormed_choice_iff.mp wellFormed
    split at gives
    · exact branches.2.2.1.output gives
    · cases gives
  · cases gives

end Form

end TypeLists
