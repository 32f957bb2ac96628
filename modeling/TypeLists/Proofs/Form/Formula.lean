import TypeLists.Proofs.Form.Chain

/-! Boolean expressions as derivations: the forms that stand for a formula are exactly those that the rules of
boolean expressions build, and their values follow these rules. -/

namespace TypeLists

namespace Form

/-- The rules by which a form is a boolean expression. -/
inductive Evaluable : Form → Prop where
  | broken (index : Nat) : Evaluable (.atom (.broken index))
  | bool (value : Bool) : Evaluable (.bool (some value))
  /-- Behind a true literal, nothing is asked of the right operand. -/
  | skip (right : Form) : Evaluable (.combine .or (.bool (some true)) right)
  | orElse {right : Form} (second : Evaluable right) :
    Evaluable (.combine .or (.bool (some false)) right)
  | and {left right : Form} (first : Evaluable left) (second : Evaluable right) :
    Evaluable (.combine .and left right)
  | shorter {left right : Form} {length length' : Nat} (first : left.Chain .types length)
    (second : right.Chain .types length') : Evaluable (.combine .shorter left right)
  | not {operand : Form} (evaluable : Evaluable operand) : Evaluable (.wrap .not operand)
  | force {operand : Form} (evaluable : Evaluable operand) : Evaluable (.wrap .force operand)

/-- What the rules build stands for a formula. -/
theorem Evaluable.exists_formula {form : Form} (evaluable : form.Evaluable) :
    ∃ formula, form.formula? = some formula := by
  -- Each rule is one case of the search for a formula, whose parts are found by the hypotheses.
  induction evaluable with
  | broken index => exact ⟨_, rfl⟩
  | bool value => exact ⟨_, rfl⟩
  | skip right => exact ⟨_, rfl⟩
  | orElse _ ih =>
    obtain ⟨formula, found⟩ := ih
    exact ⟨.orElse formula, by rw [formula?, found, Option.map_some]⟩
  | and _ _ ih ih' =>
    obtain ⟨formula, found⟩ := ih
    obtain ⟨formula', found'⟩ := ih'
    exact ⟨.and formula formula', by rw [formula?, found, found']; rfl⟩
  | shorter first second =>
    exact ⟨_, by rw [formula?, first.length?_eq, second.length?_eq]; rfl⟩
  | not _ ih =>
    obtain ⟨formula, found⟩ := ih
    exact ⟨.not formula, by rw [formula?, found, Option.map_some]⟩
  | force _ ih =>
    obtain ⟨formula, found⟩ := ih
    exact ⟨.force formula, by rw [formula?, found, Option.map_some]⟩

/-- A form without holes that stands for a formula is built by the rules. -/
theorem evaluable_of_formula? {form : Form} {formula : Formula} (whole : ∀ hole ∈ form.holes, False)
    (found : form.formula? = some formula) : form.Evaluable := by
  -- The recursion is that of the formula, and a hole in it would be one of the form.
  fun_induction formula? form generalizing formula with
  | case1 index => exact .broken index
  | case2 value => exact .bool value
  | case3 right => exact .skip right
  | case4 right ih =>
    obtain ⟨_, found, _⟩ := Option.map_eq_some_iff.mp found
    exact .orElse (ih (fun hole inside => whole hole (by simp [holes, inside])) found)
  | case5 left right ih ih' =>
    simp only [Option.bind_eq_bind, Option.bind_eq_some_iff] at found
    obtain ⟨_, first, _, second, _⟩ := found
    exact .and (ih (fun hole inside => whole hole (by simp [holes, inside])) first)
      (ih' (fun hole inside => whole hole (by simp [holes, inside])) second)
  | case6 left right =>
    simp only [Option.bind_eq_bind, Option.bind_eq_some_iff] at found
    obtain ⟨_, first, _, second, _⟩ := found
    exact .shorter
      (chain_of_length? (fun hole inside => whole hole (by simp [holes, inside])) first)
      (chain_of_length? (fun hole inside => whole hole (by simp [holes, inside])) second)
  | case7 operand ih =>
    obtain ⟨_, found, _⟩ := Option.map_eq_some_iff.mp found
    exact .not (ih whole found)
  | case8 operand ih =>
    obtain ⟨_, found, _⟩ := Option.map_eq_some_iff.mp found
    exact .force (ih whole found)
  | case9 cause => exact (whole cause (by simp [holes])).elim
  -- For any other form, the search finds nothing.
  | case10 => cases found
  | case11 => cases found

/-- A form without holes implements the trait of boolean expressions exactly if the rules build it. -/
theorem implements_boolExpr_iff {form : Form} (whole : ∀ hole ∈ form.holes, False) :
    form.implements .boolExpr ↔ form.Evaluable := by
  rw [implements, Option.isSome_iff_exists]
  constructor
  · rintro ⟨_, found⟩
    exact evaluable_of_formula? whole found
  · exact Evaluable.exists_formula

section Value

variable {left right operand : Form}

/-- A disjunction behind a false literal has the value of its right operand. -/
theorem Evaluable.value_orElse (second : right.Evaluable) :
    (combine .or (.bool (some false)) right).value = right.value := by
  obtain ⟨formula, found⟩ := second.exists_formula
  rw [value, value, formula?, found]
  rfl

/-- A conjunction evaluates both operands, the left one first. -/
theorem Evaluable.value_and (first : left.Evaluable) (second : right.Evaluable) :
    (combine .and left right).value = do
      let value ← left.value
      let value' ← right.value
      return value && value' := by
  obtain ⟨formula, found⟩ := first.exists_formula
  obtain ⟨formula', found'⟩ := second.exists_formula
  rw [value, value, value, formula?, found, found']
  rfl

/-- A negation evaluates its operand. -/
theorem Evaluable.value_not (evaluable : operand.Evaluable) :
    (wrap .not operand).value = do
      let value ← operand.value
      return !value := by
  obtain ⟨formula, found⟩ := evaluable.exists_formula
  rw [value, value, formula?, found]
  rfl

/-- What is forced is evaluated, and its value is dropped. -/
theorem Evaluable.value_force (evaluable : operand.Evaluable) :
    (wrap .force operand).value = do
      let _ ← operand.value
      return true := by
  obtain ⟨formula, found⟩ := evaluable.exists_formula
  rw [value, value, formula?, found]
  rfl

/-- The comparison of two lists has a value, which is that of their lengths. -/
theorem Chain.value_shorter {length length' : Nat} (first : left.Chain .types length)
    (second : right.Chain .types length') :
    (combine .shorter left right).value = .ok (left.length .types < right.length .types) := by
  rw [value, formula?, first.length?_eq, second.length?_eq, first.length_eq, second.length_eq]
  rfl

end Value

end Form

end TypeLists
