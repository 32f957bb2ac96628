import TypeLists.Proofs.Form.Formula

/-! The value of a boolean expression: its truth in classical logic, unless an expression that cannot be
evaluated is reached, in which case the leftmost of those decides. -/

namespace TypeLists

namespace Form

/-- The operands of the outermost connective of a boolean expression, from left to right. -/
def operands : Form → List Form
  -- The lists that a comparison compares are no part of the formula.
  | .wrap .not operand | .wrap .force operand => [operand]
  | .combine .or left right | .combine .and left right => [left, right]
  | _ => []

/-- The operand of this number is the right one of a disjunction behind a true literal. -/
def Skips (form : Form) (number : Nat) : Prop :=
  number = 1 ∧ ∃ right, form = .combine .or (.bool (some true)) right

/--
A leaf of the formula stands at a place.

A place is given by the numbers of the operands on the way to it.
-/
inductive LeafAt : Form → List Nat → Form → Prop where
  | here {leaf : Form} (last : leaf.operands = []) : LeafAt leaf [] leaf
  | within {form operand leaf : Form} {number : Nat} {place : List Nat}
    (member : form.operands[number]? = some operand) (inner : LeafAt operand place leaf) :
    LeafAt form (number :: place) leaf

/-- The place lies in an operand that is skipped, of the form or of something in it. -/
inductive SkippedAt : Form → List Nat → Prop where
  | here {form : Form} {number : Nat} (skips : form.Skips number) (place : List Nat) :
    SkippedAt form (number :: place)
  | within {form operand : Form} {number : Nat} {place : List Nat}
    (member : form.operands[number]? = some operand) (inner : SkippedAt operand place) :
    SkippedAt form (number :: place)

/-- The evaluation of the form reaches a leaf at a place. -/
def Reaches (form : Form) (place : List Nat) (leaf : Form) : Prop :=
  form.LeafAt place leaf ∧ ¬ form.SkippedAt place

/-- No expression that cannot be evaluated is reached. -/
def Unbroken (form : Form) : Prop :=
  ∀ place index, ¬ form.Reaches place (.atom (.broken index))

/-- One place stands to the left of another. -/
inductive LeftOf : List Nat → List Nat → Prop where
  | apart {first second : Nat} (less : first < second) (place place' : List Nat) :
    LeftOf (first :: place) (second :: place')
  | together (number : Nat) {place place' : List Nat} (inner : LeftOf place place') :
    LeftOf (number :: place) (number :: place')

/-- This is the leftmost of the expressions that are reached and cannot be evaluated. -/
def FirstBroken (form : Form) (index : Nat) : Prop :=
  ∃ place, form.Reaches place (.atom (.broken index)) ∧
    ∀ place' index', form.Reaches place' (.atom (.broken index')) → place' ≠ place →
      LeftOf place place'

/-- The truth of a formula, given that of everything that is no formula. -/
def truth (other : Form → Bool) : Form → Bool
  -- What is forced counts as true, whatever it says.
  | .bool value => value = some true
  | .combine .or left right => left.truth other || right.truth other
  | .combine .and left right => left.truth other && right.truth other
  | .combine .shorter left right => left.length .types < right.length .types
  | .wrap .not operand => !operand.truth other
  | .wrap .force _ => true
  | form => other form

theorem LeftOf.asymm {place place' : List Nat} (left : LeftOf place place') :
    ¬ LeftOf place' place := by
  -- The induction goes down the common way, to where the two places part.
  induction left with
  | apart less _ _ =>
    rintro (⟨less'⟩ | ⟨_⟩)
    · omega
    · omega
  | together number _ ih =>
    rintro (⟨less⟩ | ⟨_, inner⟩)
    · omega
    · exact ih inner

section Reaches

variable {form operand leaf : Form} {number index : Nat} {place : List Nat}

/-- A form is a leaf that is reached exactly if it has no operands. -/
theorem reaches_nil_iff : form.Reaches [] leaf ↔ form.operands = [] ∧ leaf = form := by
  constructor
  · rintro ⟨leafAt, _⟩
    cases leafAt with
    | here last => exact ⟨last, rfl⟩
  · rintro ⟨last, rfl⟩
    exact ⟨.here last, nofun⟩

/-- What is reached within a form is reached within an operand that is not skipped. -/
theorem reaches_cons_iff : form.Reaches (number :: place) leaf ↔
    ∃ operand, form.operands[number]? = some operand ∧ ¬ form.Skips number ∧
      operand.Reaches place leaf := by
  constructor
  · rintro ⟨leafAt, shown⟩
    cases leafAt with
    | within member inner =>
      exact ⟨_, member, fun skips => shown (.here skips place), inner,
        fun skipped => shown (.within member skipped)⟩
  · rintro ⟨operand, member, kept, inner, shown⟩
    refine ⟨.within member inner, fun skipped => ?_⟩
    -- Something skipped would be the operand itself or lie in it.
    cases skipped with
    | here skips _ => exact kept skips
    | within member' skipped =>
      cases member.symm.trans member'
      exact shown skipped

/-- At most one leaf stands at a place. -/
theorem LeafAt.unique {other : Form} (leafAt : form.LeafAt place leaf)
    (leafAt' : form.LeafAt place other) : leaf = other := by
  induction leafAt with
  | here _ =>
    cases leafAt'
    rfl
  | within member _ ih =>
    cases leafAt' with
    | within member' inner' =>
      cases member.symm.trans member'
      exact ih inner'

/-- At most one expression is the leftmost one. -/
theorem FirstBroken.unique {other : Nat} (first : form.FirstBroken index)
    (first' : form.FirstBroken other) : index = other := by
  obtain ⟨place, reaches, least⟩ := first
  obtain ⟨place', reaches', least'⟩ := first'
  -- Two places would each be to the left of the other one.
  by_cases same : place' = place
  · subst same
    cases reaches.1.unique reaches'.1
    rfl
  · exact absurd (least' place index reaches (Ne.symm same)) (least place' other reaches' same).asymm

/-- Nothing is broken in a form without operands that is not broken itself. -/
theorem unbroken_of_leaf (last : form.operands = []) (sound : ∀ index, form ≠ .atom (.broken index)) :
    form.Unbroken := by
  intro place index reaches
  cases place with
  | nil => exact sound index (reaches_nil_iff.mp reaches).2.symm
  | cons number place =>
    -- No place goes on behind a leaf.
    obtain ⟨operand, member, _⟩ := reaches_cons_iff.mp reaches
    rw [last] at member
    cases member

/-- Nothing is broken in a form if nothing is in those of its operands that are not skipped. -/
theorem unbroken_of_operands (branched : form.operands ≠ [])
    (operands : ∀ number operand, form.operands[number]? = some operand → ¬ form.Skips number →
      operand.Unbroken) : form.Unbroken := by
  intro place index reaches
  cases place with
  | nil =>
    -- The form itself is no leaf.
    exact branched (reaches_nil_iff.mp reaches).1
  | cons number place =>
    obtain ⟨operand, member, kept, inner⟩ := reaches_cons_iff.mp reaches
    exact operands number operand member kept place index inner

/-- The leftmost broken expression of an operand is that of the form, if none is in the operands before. -/
theorem FirstBroken.of_operand (member : form.operands[number]? = some operand)
    (kept : ¬ form.Skips number) (first : operand.FirstBroken index)
    (before : ∀ earlier < number, ∀ operand', form.operands[earlier]? = some operand' →
      operand'.Unbroken) : form.FirstBroken index := by
  obtain ⟨place, reaches, least⟩ := first
  refine ⟨number :: place, reaches_cons_iff.mpr ⟨operand, member, kept, reaches⟩, ?_⟩
  intro place' index' reaches' different
  cases place' with
  | nil =>
    -- A form with an operand is no leaf.
    rw [(reaches_nil_iff.mp reaches').1] at member
    cases member
  | cons number' place' =>
    obtain ⟨operand', member', _, inner⟩ := reaches_cons_iff.mp reaches'
    -- Operands before the one at hand are unbroken, and those behind it are to the right.
    rcases Nat.lt_trichotomy number' number with less | rfl | less
    · exact absurd inner (before number' less operand' member' place' index')
    · cases member.symm.trans member'
      exact .together number' (least place' index' inner fun same => different (same ▸ rfl))
    · exact .apart less place place'

end Reaches

/-- The outcome of evaluating a form: its first broken expression, or its truth where none is reached. -/
def Settles (form : Form) : Except Failure Bool → Prop
  | .error failure => ∃ index, failure = .broken index ∧ form.FirstBroken index
  | .ok value => form.Unbroken ∧ ∀ other, value = form.truth other

/-- A form with one operand, which is not skipped, is settled by that operand. -/
theorem settles_single {form operand : Form} (only : form.operands = [operand])
    (kept : ¬ form.Skips 0) {outcome : Except Failure Bool} (settles : operand.Settles outcome)
    {result : Bool → Bool}
    (truth : ∀ other, result (operand.truth other) = form.truth other) :
    form.Settles (do return result (← outcome)) := by
  cases outcome with
  | error failure =>
    obtain ⟨index, rfl, first⟩ := settles
    exact ⟨index, rfl, first.of_operand (by rw [only]; rfl) kept nofun⟩
  | ok value =>
    obtain ⟨unbroken, same⟩ := settles
    refine ⟨unbroken_of_operands (by simp [only]) fun number operand' member _ => ?_,
      fun other => (same other) ▸ truth other⟩
    rw [only, List.getElem?_singleton] at member
    split at member
    · cases member
      exact unbroken
    · cases member

/-- A form with two operands, none of which is skipped, is settled by the left one and then by the right one. -/
theorem settles_pair {form left right : Form} (both : form.operands = [left, right])
    (kept : ∀ number, ¬ form.Skips number) {outcome outcome' : Except Failure Bool}
    (settles : left.Settles outcome) (settles' : right.Settles outcome') {result : Bool → Bool → Bool}
    (truth : ∀ other, result (left.truth other) (right.truth other) = form.truth other) :
    form.Settles (do
      let value ← outcome
      let value' ← outcome'
      return result value value') := by
  have first : form.operands[0]? = some left := by rw [both]; rfl
  have second : form.operands[1]? = some right := by rw [both]; rfl
  cases outcome with
  | error failure =>
    -- A failure on the left is found before the right operand is looked at.
    obtain ⟨index, rfl, broken⟩ := settles
    exact ⟨index, rfl, broken.of_operand first (kept 0) nofun⟩
  | ok value =>
    obtain ⟨unbroken, same⟩ := settles
    cases outcome' with
    | error failure =>
      obtain ⟨index, rfl, broken⟩ := settles'
      refine ⟨index, rfl, broken.of_operand second (kept 1) fun earlier less operand member => ?_⟩
      cases Nat.lt_one_iff.mp less
      cases first.symm.trans member
      exact unbroken
    | ok value' =>
      obtain ⟨unbroken', same'⟩ := settles'
      refine ⟨unbroken_of_operands (by simp [both]) fun number operand member _ => ?_, fun other => ?_⟩
      · rw [both] at member
        match number, member with
        | 0, rfl => exact unbroken
        | 1, rfl => exact unbroken'
      · rw [← truth other, ← same other, ← same' other]

/-- A literal settles itself. -/
theorem settles_bool (value : Bool) : (bool (some value)).Settles (.ok value) := by
  refine ⟨unbroken_of_leaf rfl nofun, fun other => ?_⟩
  cases value <;> rfl

/-- The evaluation of a boolean expression settles it. -/
theorem Evaluable.settles {form : Form} (evaluable : form.Evaluable) : form.Settles form.value := by
  -- The induction is on the rules, and only a disjunction behind a true literal skips anything.
  induction evaluable with
  | broken index =>
    refine ⟨index, rfl, [], reaches_nil_iff.mpr ⟨rfl, rfl⟩, ?_⟩
    intro place' index' reaches different
    cases place' with
    | nil => exact absurd rfl different
    | cons number place' =>
      obtain ⟨_, member, _⟩ := reaches_cons_iff.mp reaches
      cases member
  | bool value => exact settles_bool value
  | skip right =>
    refine ⟨unbroken_of_operands (by simp [operands]) fun number operand member kept => ?_,
      fun _ => rfl⟩
    match number, member with
    | 0, rfl => exact (settles_bool true).1
    | 1, rfl => exact absurd ⟨rfl, right, rfl⟩ kept
  | @orElse right second ih =>
    -- The false literal on the left is a leaf like any other.
    have whole : (combine .or (.bool (some false)) right).value = do
        let value ← .ok false
        let value' ← right.value
        return value || value' := by
      rw [second.value_orElse]
      cases right.value <;> rfl
    rw [whole]
    exact settles_pair rfl (fun _ ⟨_, _, same⟩ => nomatch same) (settles_bool false) ih fun _ => rfl
  | and first second ih ih' =>
    rw [first.value_and second]
    exact settles_pair rfl (fun _ ⟨_, _, same⟩ => nomatch same) ih ih' fun _ => rfl
  | shorter first second =>
    rw [first.value_shorter second]
    exact ⟨unbroken_of_leaf rfl nofun, fun _ => rfl⟩
  | not evaluable ih =>
    rw [evaluable.value_not]
    exact settles_single rfl (fun skips => nomatch skips.1) ih fun _ => rfl
  | force evaluable ih =>
    rw [evaluable.value_force]
    exact settles_single rfl (fun skips => nomatch skips.1) ih fun _ => rfl

/-- A boolean expression fails as its leftmost broken expression does, if one is reached. -/
theorem Evaluable.value_eq_error_iff {form : Form} (evaluable : form.Evaluable) {failure : Failure} :
    form.value = .error failure ↔ ∃ index, failure = .broken index ∧ form.FirstBroken index := by
  have settles := evaluable.settles
  constructor
  · intro fails
    rwa [fails] at settles
  · rintro ⟨index, rfl, first⟩
    cases outcome : form.value with
    | error failure =>
      rw [outcome] at settles
      obtain ⟨index', rfl, first'⟩ := settles
      rw [first.unique first']
    | ok value =>
      rw [outcome] at settles
      obtain ⟨place, reaches, _⟩ := first
      exact absurd reaches (settles.1 place index)

/-- A boolean expression in which nothing broken is reached has its truth for its value. -/
theorem Evaluable.value_eq_truth {form : Form} (evaluable : form.Evaluable) (unbroken : form.Unbroken)
    (other : Form → Bool) : form.value = .ok (form.truth other) := by
  have settles := evaluable.settles
  cases outcome : form.value with
  | error failure =>
    rw [outcome] at settles
    obtain ⟨index, _, place, reaches, _⟩ := settles
    exact absurd reaches (unbroken place index)
  | ok value =>
    rw [outcome] at settles
    rw [settles.2 other]

/-- The form is an operand whose value does not come from that of another form. -/
def Atomic (form : Form) : Prop :=
  (∃ index, form = .atom (.broken index)) ∨ (∃ value, form = .bool (some value)) ∨
    ∃ left right length length', form = .combine .shorter left right ∧
      left.Chain .types length ∧ right.Chain .types length'

/-- The operands of a boolean expression are boolean expressions, but for one that is skipped. -/
theorem Evaluable.operand {form operand : Form} (evaluable : form.Evaluable) {number : Nat}
    (member : form.operands[number]? = some operand) (kept : ¬ form.Skips number) :
    operand.Evaluable := by
  cases evaluable with
  | broken index => cases member
  | bool value => cases member
  | shorter first second => cases member
  | skip right =>
    match number, member with
    | 0, rfl => exact .bool true
    | 1, rfl => exact absurd ⟨rfl, right, rfl⟩ kept
  | orElse second =>
    match number, member with
    | 0, rfl => exact .bool false
    | 1, rfl => exact second
  | and first second =>
    match number, member with
    | 0, rfl => exact first
    | 1, rfl => exact second
  | not evaluable =>
    match number, member with
    | 0, rfl => exact evaluable
  | force evaluable =>
    match number, member with
    | 0, rfl => exact evaluable

/-- The leaves of a boolean expression that its evaluation reaches are literals, comparisons and broken. -/
theorem Evaluable.atomic {form leaf : Form} (evaluable : form.Evaluable) {place : List Nat}
    (reaches : form.Reaches place leaf) : leaf.Atomic := by
  -- The induction follows the way to the leaf.
  induction place generalizing form with
  | nil =>
    obtain ⟨last, rfl⟩ := reaches_nil_iff.mp reaches
    cases evaluable with
    | broken index => exact .inl ⟨index, rfl⟩
    | bool value => exact .inr (.inl ⟨value, rfl⟩)
    | shorter first second => exact .inr (.inr ⟨_, _, _, _, rfl, first, second⟩)
    | skip right => cases last
    | orElse second => cases last
    | and first second => cases last
    | not evaluable => cases last
    | force evaluable => cases last
  | cons number place ih =>
    obtain ⟨operand, member, kept, inner⟩ := reaches_cons_iff.mp reaches
    exact ih (evaluable.operand member kept) inner

end Form

end TypeLists
