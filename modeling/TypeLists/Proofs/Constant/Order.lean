import TypeLists.Constant.Item

/-! The order in which a constant evaluates its mentions: the order in which they are written, except
where two operands change places. -/

namespace TypeLists

namespace Constant

variable {type : Type}

/-- The operands of a constant, as they are written. -/
def operands : Constant type → List (Constant type)
  | .literal _ | .compare _ _ _ _ | .panic _ | .mention _ _ => []
  | .not operand => [operand]
  | .connect _ left right => [left, right]
  | .choose condition positive negative => [condition, positive, negative]

/--
A mention stands at a place of a constant.

A place is given by the numbers of the operands on the way to it, so that places come in the
lexicographic order of these numbers as they are written.
-/
inductive Occurs : Constant type → List Nat → Mention → type → Prop where
  | here (how : Mention) (subject : type) : Occurs (.mention how subject) [] how subject
  | within {constant operand : Constant type} {number : Nat} {place : List Nat} {how : Mention}
    {subject : type} (member : constant.operands[number]? = some operand)
    (occurs : Occurs operand place how subject) : Occurs constant (number :: place) how subject

/-- Two operands of a constant are evaluated the other way round than they are written. -/
def turns : Constant type → Nat → Nat → Bool
  -- A bare left side waits for a right side that is not bare, and a branch that is leaned to for the other.
  | .connect .xor left right, _, _ | .connect .band left right, _, _ =>
    left.isMention && !right.isMention
  | .choose condition _ _, first, second => condition.leansPositive && first != 0 && second != 0
  | _, _, _ => false

/-- An operand of a constant is evaluated before another. -/
def Sooner (constant : Constant type) (first second : Nat) : Prop :=
  if constant.turns first second then second < first else first < second

/-- What stands at a place of a constant is evaluated before what stands at another. -/
inductive Before : Constant type → List Nat → List Nat → Prop where
  /-- The operands that the places lie in decide. -/
  | apart {constant : Constant type} {first second : Nat} (sooner : constant.Sooner first second)
    (place place' : List Nat) : Before constant (first :: place) (second :: place')
  /-- Within one operand, the order is that of the operand. -/
  | together {constant operand : Constant type} {number : Nat} {place place' : List Nat}
    (member : constant.operands[number]? = some operand) (before : Before operand place place') :
    Before constant (number :: place) (number :: place')

/-- Whether two operands change places does not depend on which is named first. -/
theorem turns_comm (constant : Constant type) (first second : Nat) :
    constant.turns first second = constant.turns second first := by
  cases constant with
  | choose condition positive negative =>
    simp only [turns, Bool.and_assoc, Bool.and_comm (first != 0)]
  | connect connective left right => cases connective <;> rfl
  | _ => rfl

/-- No operand is evaluated both before and after another. -/
theorem Sooner.asymm {constant : Constant type} {first second : Nat}
    (sooner : constant.Sooner first second) : ¬ constant.Sooner second first := by
  -- Either order of the two numbers is irreflexive and asymmetric.
  unfold Sooner at sooner ⊢
  rw [constant.turns_comm second first]
  by_cases turned : constant.turns first second
  · rw [if_pos turned] at sooner ⊢
    omega
  · rw [if_neg turned] at sooner ⊢
    omega

/-- No place is evaluated both before and after another. -/
theorem Before.asymm {constant : Constant type} {place place' : List Nat}
    (before : constant.Before place place') : ¬ constant.Before place' place := by
  -- The induction goes down to the operands in which the places part.
  induction before with
  | apart sooner rest rest' =>
    intro after
    cases after with
    | apart sooner' => exact sooner.asymm sooner'
    | together => exact sooner.asymm sooner
  | together member inner ih =>
    intro after
    cases after with
    | apart sooner' => exact sooner'.asymm sooner'
    | together member' inner' =>
      -- The places lie in the same operand both times.
      cases member.symm.trans member'
      exact ih inner'

/-- The mentions of an operand, placed in the constant around it. -/
def placed (number : Nat) (inner : List (List Nat × Mention × type)) :
    List (List Nat × Mention × type) :=
  inner.map fun occurrence => (number :: occurrence.1, occurrence.2)

/-- All mentions of a constant with their places, in the order in which they are evaluated. -/
def occurrences : Constant type → List (List Nat × Mention × type)
  | .literal _ | .compare _ _ _ _ | .panic _ => []
  | .not operand => placed 0 operand.occurrences
  | .connect .and left right | .connect .or left right =>
    placed 0 left.occurrences ++ placed 1 right.occurrences
  | .connect .xor left right | .connect .band left right =>
    if left.isMention && !right.isMention then
      placed 1 right.occurrences ++ placed 0 left.occurrences
    else placed 0 left.occurrences ++ placed 1 right.occurrences
  | .choose condition positive negative =>
    placed 0 condition.occurrences ++
      if condition.leansPositive then
        placed 2 negative.occurrences ++ placed 1 positive.occurrences
      else placed 1 positive.occurrences ++ placed 2 negative.occurrences
  | .mention how subject => [([], how, subject)]

@[simp] theorem map_placed (number : Nat) (inner : List (List Nat × Mention × type)) :
    (placed number inner).map Prod.snd = inner.map Prod.snd := by
  simp [placed]

/-- Without their places, these are the mentions that are evaluated. -/
theorem mentions_eq (constant : Constant type) :
    constant.mentions = constant.occurrences.map Prod.snd := by
  -- Placing the mentions of an operand does not change them or their order.
  fun_induction mentions constant with
  | _ => simp_all [occurrences, apply_ite (List.map Prod.snd)]

/-- A place within an operand is one of the operand's, with the number of the operand in front. -/
theorem mem_placed_iff {number : Nat} {inner : List (List Nat × Mention × type)}
    {place : List Nat} {how : Mention} {subject : type} :
    (place, how, subject) ∈ placed number inner ↔
      ∃ rest, place = number :: rest ∧ (rest, how, subject) ∈ inner := by
  simp only [placed, List.mem_map, Prod.mk.injEq, Prod.exists]
  grind

/-- A mention at the place of the whole constant is the whole constant. -/
theorem occurs_nil_iff {constant : Constant type} {how : Mention} {subject : type} :
    constant.Occurs [] how subject ↔ constant = .mention how subject := by
  constructor
  · intro occurs
    cases occurs
    rfl
  · intro same
    exact same ▸ .here how subject

/-- A mention further down stands in the operand that its place begins with. -/
theorem occurs_cons_iff {constant : Constant type} {number : Nat} {place : List Nat}
    {how : Mention} {subject : type} :
    constant.Occurs (number :: place) how subject ↔
      ∃ operand, constant.operands[number]? = some operand ∧
        operand.Occurs place how subject := by
  constructor
  · intro occurs
    cases occurs with
    | within member inner => exact ⟨_, member, inner⟩
  · intro parts
    obtain ⟨operand, member, inner⟩ := parts
    exact .within member inner

/-- Putting two lists together the other way round does not change their members. -/
theorem mem_turned_iff {element : Type} {turned : Prop} [Decidable turned]
    {first second : List element} {member : element} :
    (member ∈ if turned then second ++ first else first ++ second) ↔
      member ∈ first ∨ member ∈ second := by
  split
  · rw [List.mem_append, or_comm]
  · rw [List.mem_append]

theorem nil_mem_occurrences_iff {constant : Constant type} {how : Mention} {subject : type} :
    ([], how, subject) ∈ constant.occurrences ↔ constant = .mention how subject := by
  have nested {number : Nat} {inner : List (List Nat × Mention × type)} :
      ([], how, subject) ∉ placed number inner := by
    simp [mem_placed_iff]
  cases constant with
  | mention how' subject' => simp [occurrences, eq_comm]
  | connect connective left right => cases connective <;> simp [occurrences, mem_turned_iff, nested]
  | _ => simp [occurrences, mem_turned_iff, nested]

/-- The mentions further down are those of the operands, whatever the order of these. -/
theorem cons_mem_occurrences_iff {constant : Constant type} {number : Nat} {place : List Nat}
    {how : Mention} {subject : type} :
    (number :: place, how, subject) ∈ constant.occurrences ↔
      ∃ operand, constant.operands[number]? = some operand ∧
        (place, how, subject) ∈ operand.occurrences := by
  -- Which operand comes first plays no part in what the operands contain.
  have numbered (operand : Constant type) :
      constant.operands[number]? = some operand ↔ (operand, number) ∈ constant.operands.zipIdx :=
    (@List.mem_zipIdx_iff_getElem? _ (operand, number) _).symm
  have nested {other : Nat} {inner : List (List Nat × Mention × type)} :
      (number :: place, how, subject) ∈ placed other inner ↔
        number = other ∧ (place, how, subject) ∈ inner := by
    simp [mem_placed_iff, and_assoc]
  simp only [numbered]
  cases constant with
  | connect connective left right =>
    cases connective <;>
      simp [occurrences, operands, mem_turned_iff, nested, or_and_right, exists_or, and_assoc]
  | _ => simp [occurrences, operands, mem_turned_iff, nested, or_and_right, exists_or, and_assoc]

/-- A mention is evaluated exactly if it stands somewhere in the constant, reached or not. -/
theorem mem_occurrences_iff {constant : Constant type} {place : List Nat} {how : Mention}
    {subject : type} :
    (place, how, subject) ∈ constant.occurrences ↔ constant.Occurs place how subject := by
  -- The induction is on the place, which leads one operand further down at every step.
  induction place generalizing constant with
  | nil => rw [nil_mem_occurrences_iff, occurs_nil_iff]
  | cons number rest ih => simp only [cons_mem_occurrences_iff, occurs_cons_iff, ih]

/-- The mentions of one operand are evaluated in the constant as they are in the operand. -/
theorem pairwise_placed {constant operand : Constant type} {number : Nat}
    (member : constant.operands[number]? = some operand)
    (ordered : operand.occurrences.Pairwise fun first second => operand.Before first.1 second.1) :
    (placed number operand.occurrences).Pairwise fun first second =>
      constant.Before first.1 second.1 := by
  rw [placed, List.pairwise_map]
  exact ordered.imp fun before => .together member before

/-- The mentions of an operand are evaluated before those of all later operands. -/
theorem before_of_placed {constant : Constant type} {number number' : Nat}
    (sooner : constant.Sooner number number')
    {inner inner' : List (List Nat × Mention × type)} :
    ∀ first ∈ placed number inner, ∀ second ∈ placed number' inner',
      constant.Before first.1 second.1 := by
  intro first inside second inside'
  obtain ⟨rest, place, _⟩ := mem_placed_iff.mp inside
  obtain ⟨rest', place', _⟩ := mem_placed_iff.mp inside'
  rw [place, place']
  exact .apart sooner rest rest'

/-- The mentions are listed in the order in which they are evaluated. -/
theorem pairwise_occurrences (constant : Constant type) :
    constant.occurrences.Pairwise fun first second => constant.Before first.1 second.1 := by
  -- Every operand is in order by itself, and the operands are listed as they are evaluated.
  induction constant with
  | literal value => exact .nil
  | compare comparison kind left right => exact .nil
  | panic index => exact .nil
  | mention how subject => exact List.pairwise_singleton _ _
  | not operand ih => exact pairwise_placed rfl ih
  | connect connective left right ihLeft ihRight =>
    have first {connective : Connective} :=
      @pairwise_placed _ (.connect connective left right) _ 0 rfl ihLeft
    have second {connective : Connective} :=
      @pairwise_placed _ (.connect connective left right) _ 1 rfl ihRight
    cases connective with
    | and => exact List.pairwise_append.mpr ⟨first, second, before_of_placed (by simp [Sooner, turns])⟩
    | or => exact List.pairwise_append.mpr ⟨first, second, before_of_placed (by simp [Sooner, turns])⟩
    | xor =>
      rw [occurrences]
      split
      · rename_i turned
        exact List.pairwise_append.mpr
          ⟨second, first, before_of_placed (by simp [Sooner, turns, turned])⟩
      · rename_i kept
        exact List.pairwise_append.mpr
          ⟨first, second, before_of_placed (by simp [Sooner, turns, kept])⟩
    | band =>
      rw [occurrences]
      split
      · rename_i turned
        exact List.pairwise_append.mpr
          ⟨second, first, before_of_placed (by simp [Sooner, turns, turned])⟩
      · rename_i kept
        exact List.pairwise_append.mpr
          ⟨first, second, before_of_placed (by simp [Sooner, turns, kept])⟩
  | choose condition positive negative ihCondition ihPositive ihNegative =>
    have first := @pairwise_placed _ (.choose condition positive negative) _ 0 rfl ihCondition
    have second := @pairwise_placed _ (.choose condition positive negative) _ 1 rfl ihPositive
    have third := @pairwise_placed _ (.choose condition positive negative) _ 2 rfl ihNegative
    rw [occurrences]
    refine List.pairwise_append.mpr ⟨first, ?_, ?_⟩
    · split
      · rename_i leans
        exact List.pairwise_append.mpr
          ⟨third, second, before_of_placed (by simp [Sooner, turns, leans])⟩
      · rename_i leans
        exact List.pairwise_append.mpr
          ⟨second, third, before_of_placed (by simp [Sooner, turns, leans])⟩
    · -- The condition is evaluated before either branch.
      intro occurrence inside occurrence' inside'
      have branch : occurrence' ∈ placed 1 positive.occurrences ∨
          occurrence' ∈ placed 2 negative.occurrences := by
        split at inside'
        · exact (List.mem_append.mp inside').symm
        · exact List.mem_append.mp inside'
      rcases branch with inside' | inside'
      · exact before_of_placed (by simp [Sooner, turns]) _ inside _ inside'
      · exact before_of_placed (by simp [Sooner, turns]) _ inside _ inside'

end Constant

end TypeLists
