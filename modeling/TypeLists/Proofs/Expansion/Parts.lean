import TypeLists.Proofs.Parts

/-! The parts of a type that expands: each of them expands on its own, to a type in the expansion. -/

namespace TypeLists

open Expanding (run_map_eq_ok_iff)

variable {limit depth : Nat}

/-- Types that stand at one depth expand one by one. -/
theorem Ty.run_expandAll_eq_ok_iff {types plains : List Ty} :
    Expanding.run limit (Ty.expandAll types depth) = .ok plains ↔
      List.Forall₂ (fun type plain => Expanding.run limit (type.expand depth) = .ok plain)
        types plains := by
  -- The induction is on the types, which are expanded one after another.
  induction types generalizing plains with
  | nil => simp [Ty.expandAll, eq_comm]
  | cons head rest ih =>
    simp only [Ty.expandAll]
    rw [(head.regular_expand.lawful depth).run_map₂_eq_ok_iff
      ((Ty.regular_expandAll rest).lawful depth)]
    simp only [ih]
    constructor
    · intro parts
      obtain ⟨head', rest', first, others, rfl⟩ := parts
      exact .cons first others
    · intro parts
      cases parts with
      | cons first others => exact ⟨_, _, first, others, rfl⟩

/-- What a type expands to somewhere inside, it expands to at the outermost level. -/
theorem Ty.run_expand_outermost {type plain : Ty}
    (expands : Expanding.run limit (type.expand depth) = .ok plain) :
    Expanding.run limit (type.expand 0) = .ok plain :=
  type.regular_expand.outward (Nat.zero_le depth) expands

/-- A type that a mention names expands where the mention does. -/
theorem Mention.run_expand {how : Mention} {subject plain : Ty}
    (expands : Expanding.run limit (how.expand subject subject.expand depth) = .ok plain) :
    Expanding.run limit (subject.expand 0) = .ok plain := by
  -- An inline mention is a step of its own, and every other one stands where the constant does.
  unfold Mention.expand at expands
  split at expands
  · rw [Expanding.run_step_eq_ok_iff] at expands
    exact Ty.run_expand_outermost expands.2
  · exact Ty.run_expand_outermost expands

/-- The lists that an integer expression measures expand with it. -/
theorem Arith.expand_of_mem {number plain : Arith Ty} {type : Ty}
    (expands : Expanding.run limit (number.expand depth) = .ok plain)
    (member : type ∈ number.lists) :
    ∃ plainType ∈ plain.lists, Expanding.run limit (type.expand 0) = .ok plainType := by
  -- The expression keeps its form, so that the lists in it correspond.
  induction number generalizing plain with
  | literal minus magnitude => cases member
  | least => cases member
  | greatest => cases member
  | negate operand ih =>
    simp only [Arith.expand, run_map_eq_ok_iff] at expands
    obtain ⟨operand', operandExpands, rfl⟩ := expands
    have inner := ih operandExpands member
    exact inner
  | apply operation left right ihLeft ihRight =>
    simp only [Arith.expand] at expands
    rw [(left.regular_expand.lawful depth).run_map₂_eq_ok_iff
      (right.regular_expand.lawful depth)] at expands
    obtain ⟨left', right', leftExpands, rightExpands, rfl⟩ := expands
    rcases List.mem_append.mp member with member | member
    · obtain ⟨plainType, inside, typeExpands⟩ := ihLeft leftExpands member
      exact ⟨plainType, List.mem_append_left _ inside, typeExpands⟩
    · obtain ⟨plainType, inside, typeExpands⟩ := ihRight rightExpands member
      exact ⟨plainType, List.mem_append_right _ inside, typeExpands⟩
  | length kind list =>
    simp only [Arith.expand, run_map_eq_ok_iff] at expands
    obtain ⟨list', listExpands, rfl⟩ := expands
    cases List.mem_singleton.mp member
    exact ⟨list', List.mem_singleton_self _,
      Ty.run_expand_outermost listExpands⟩

/-- The types that a constant names expand with it. -/
theorem Constant.expand_of_mem {constant plain : Constant Ty} {type : Ty}
    (expands : Expanding.run limit (constant.expand depth) = .ok plain)
    (member : type ∈ constant.types) :
    ∃ plainType ∈ plain.types, Expanding.run limit (type.expand 0) = .ok plainType := by
  -- The constant keeps its form, so that the types in it correspond.
  induction constant generalizing plain with
  | literal value => cases member
  | panic index => cases member
  | not operand ih =>
    simp only [Constant.expand, run_map_eq_ok_iff] at expands
    obtain ⟨operand', operandExpands, rfl⟩ := expands
    have inner := ih operandExpands member
    exact inner
  | connect connective left right ihLeft ihRight =>
    simp only [Constant.expand] at expands
    rw [(left.regular_expand.lawful depth).run_map₂_eq_ok_iff
      (right.regular_expand.lawful depth)] at expands
    obtain ⟨left', right', leftExpands, rightExpands, rfl⟩ := expands
    rcases List.mem_append.mp member with member | member
    · obtain ⟨plainType, inside, typeExpands⟩ := ihLeft leftExpands member
      exact ⟨plainType, List.mem_append_left _ inside, typeExpands⟩
    · obtain ⟨plainType, inside, typeExpands⟩ := ihRight rightExpands member
      exact ⟨plainType, List.mem_append_right _ inside, typeExpands⟩
  | choose condition positive negative ihCondition ihPositive ihNegative =>
    simp only [Constant.expand] at expands
    rw [(condition.regular_expand.lawful depth).run_map₃_eq_ok_iff
      (positive.regular_expand.lawful depth) (negative.regular_expand.lawful depth)] at expands
    obtain ⟨condition', positive', negative', conditionExpands, positiveExpands, negativeExpands,
      rfl⟩ := expands
    simp only [types, List.mem_append] at member ⊢
    rcases member with (member | member) | member
    · obtain ⟨plainType, inside, typeExpands⟩ := ihCondition conditionExpands member
      exact ⟨plainType, .inl (.inl inside), typeExpands⟩
    · obtain ⟨plainType, inside, typeExpands⟩ := ihPositive positiveExpands member
      exact ⟨plainType, .inl (.inr inside), typeExpands⟩
    · obtain ⟨plainType, inside, typeExpands⟩ := ihNegative negativeExpands member
      exact ⟨plainType, .inr inside, typeExpands⟩
  | compare comparison kind left right =>
    simp only [Constant.expand] at expands
    rw [(left.regular_expand.lawful depth).run_map₂_eq_ok_iff
      (right.regular_expand.lawful depth)] at expands
    obtain ⟨left', right', leftExpands, rightExpands, rfl⟩ := expands
    rcases List.mem_append.mp member with member | member
    · obtain ⟨plainType, inside, typeExpands⟩ := Arith.expand_of_mem leftExpands member
      exact ⟨plainType, List.mem_append_left _ inside, typeExpands⟩
    · obtain ⟨plainType, inside, typeExpands⟩ := Arith.expand_of_mem rightExpands member
      exact ⟨plainType, List.mem_append_right _ inside, typeExpands⟩
  | mention how subject =>
    simp only [Constant.expand, run_map_eq_ok_iff] at expands
    obtain ⟨subject', subjectExpands, rfl⟩ := expands
    cases List.mem_singleton.mp member
    exact ⟨subject', List.mem_singleton_self _, Mention.run_expand subjectExpands⟩

/-- What the elements of a literal expand to one level below each other, they expand to at the top. -/
theorem Literal.Makes.outward {element : Type} {expand : element → Nat → Expanding element}
    (regular : ∀ value, Expanding.Regular (expand value)) {written values : List element}
    (makes : Makes limit depth expand written values) :
    List.Forall₂ (fun value plain => Expanding.run limit (expand value 0) = .ok plain)
      written values := by
  -- Every element stands one level below the one before it.
  unfold Makes at makes
  induction written generalizing depth values with
  | nil =>
    cases makes
    exact .nil
  | cons head rest ih =>
    rw [List.zipIdx_cons] at makes
    cases makes with
    | cons first others =>
      exact .cons ((regular head).outward (Nat.zero_le _) first) (ih others)

/-- A chain of types contains its elements. -/
theorem Ty.contains_chain {values : List Ty} {value : Ty} (member : value ∈ values) :
    (values.foldr Ty.cons .nil).Contains value := by
  induction values with
  | nil => cases member
  | cons head rest ih =>
    rcases List.mem_cons.mp member with rfl | member
    · exact .within (List.mem_cons_self ..) (.itself value)
    · exact .within (List.mem_cons_of_mem _ (List.mem_singleton_self _)) (ih member)

/-- A chain of booleans contains the types that its elements name. -/
theorem Ty.contains_boolChain {values : List (Constant Ty)} {value : Constant Ty} {type : Ty}
    (member : value ∈ values) (inside : type ∈ value.types) :
    (values.foldr Ty.boolCons .boolNil).Contains type := by
  induction values with
  | nil => cases member
  | cons head rest ih =>
    rcases List.mem_cons.mp member with rfl | member
    · exact .within (List.mem_append_left _ inside) (.itself type)
    · exact .within (List.mem_append_right _ (List.mem_singleton_self _)) (ih member)

/-- A member of a list has a counterpart in every list that it is related to. -/
theorem exists_of_mem_forall₂ {first second : Type} {relation : first → second → Prop}
    {members : List first} {images : List second} (all : List.Forall₂ relation members images)
    {member : first} (inside : member ∈ members) : ∃ image ∈ images, relation member image := by
  induction all with
  | nil => cases inside
  | cons related _ ih =>
    rcases List.mem_cons.mp inside with rfl | inside
    · exact ⟨_, List.mem_cons_self .., related⟩
    · obtain ⟨image, inside, related⟩ := ih inside
      exact ⟨image, List.mem_cons_of_mem _ inside, related⟩

/-- The parts of a type that expands do so on their own, to types in the expansion. -/
theorem Ty.expand_of_mem {whole plain part : Ty}
    (expands : Expanding.run limit (whole.expand depth) = .ok plain) (member : part ∈ whole.parts) :
    ∃ plainPart, Expanding.run limit (part.expand 0) = .ok plainPart ∧ plain.Contains plainPart := by
  -- Only literals change their form, and the chain of a literal contains what its elements expand to.
  cases whole with
  | atom leaf => cases member
  | named name => cases member
  | wrap wrapper inner =>
    simp only [Ty.expand, run_map_eq_ok_iff] at expands
    obtain ⟨inner', innerExpands, rfl⟩ := expands
    cases List.mem_singleton.mp member
    exact ⟨inner', Ty.run_expand_outermost innerExpands,
      .within (List.mem_singleton_self _) (.itself _)⟩
  | cons head tail =>
    simp only [Ty.expand] at expands
    rw [(head.regular_expand.lawful depth).run_map₂_eq_ok_iff
      (tail.regular_expand.lawful depth)] at expands
    obtain ⟨head', tail', headExpands, tailExpands, rfl⟩ := expands
    simp only [parts, List.mem_cons, List.not_mem_nil, or_false] at member
    rcases member with rfl | rfl
    · exact ⟨head', Ty.run_expand_outermost headExpands,
        .within (by simp [parts]) (.itself _)⟩
    · exact ⟨tail', Ty.run_expand_outermost tailExpands,
        .within (by simp [parts]) (.itself _)⟩
  | combine combinator left right =>
    simp only [Ty.expand] at expands
    rw [(left.regular_expand.lawful depth).run_map₂_eq_ok_iff
      (right.regular_expand.lawful depth)] at expands
    obtain ⟨left', right', leftExpands, rightExpands, rfl⟩ := expands
    simp only [parts, List.mem_cons, List.not_mem_nil, or_false] at member
    rcases member with rfl | rfl
    · exact ⟨left', Ty.run_expand_outermost leftExpands,
        .within (by simp [parts]) (.itself _)⟩
    · exact ⟨right', Ty.run_expand_outermost rightExpands,
        .within (by simp [parts]) (.itself _)⟩
  | choice condition positive negative =>
    simp only [Ty.expand] at expands
    rw [(condition.regular_expand.lawful depth).run_map₃_eq_ok_iff
      (positive.regular_expand.lawful depth) (negative.regular_expand.lawful depth)] at expands
    obtain ⟨condition', positive', negative', conditionExpands, positiveExpands, negativeExpands,
      rfl⟩ := expands
    simp only [parts, List.mem_cons, List.not_mem_nil, or_false] at member
    rcases member with rfl | rfl | rfl
    · exact ⟨condition', Ty.run_expand_outermost conditionExpands,
        .within (by simp [parts]) (.itself _)⟩
    · exact ⟨positive', Ty.run_expand_outermost positiveExpands,
        .within (by simp [parts]) (.itself _)⟩
    · exact ⟨negative', Ty.run_expand_outermost negativeExpands,
        .within (by simp [parts]) (.itself _)⟩
  | tuple members =>
    simp only [Ty.expand, run_map_eq_ok_iff, Ty.run_expandAll_eq_ok_iff] at expands
    obtain ⟨members', membersExpand, rfl⟩ := expands
    obtain ⟨part', inside, partExpands⟩ := exists_of_mem_forall₂ membersExpand member
    exact ⟨part', Ty.run_expand_outermost partExpands,
      .within inside (.itself _)⟩
  | function arguments result =>
    simp only [Ty.expand] at expands
    rw [((Ty.regular_expandAll arguments).lawful depth).run_map₂_eq_ok_iff
      (result.regular_expand.lawful depth)] at expands
    obtain ⟨arguments', result', argumentsExpand, resultExpands, rfl⟩ := expands
    simp only [parts, List.mem_append, List.mem_singleton] at member
    rcases member with member | rfl
    · rw [Ty.run_expandAll_eq_ok_iff] at argumentsExpand
      obtain ⟨part', inside, partExpands⟩ := exists_of_mem_forall₂ argumentsExpand member
      exact ⟨part', Ty.run_expand_outermost partExpands,
        .within (List.mem_append_left _ inside) (.itself _)⟩
    · exact ⟨result', Ty.run_expand_outermost resultExpands,
        .within (by simp [parts]) (.itself _)⟩
  | bool constant =>
    simp only [Ty.expand, run_map_eq_ok_iff] at expands
    obtain ⟨constant', constantExpands, rfl⟩ := expands
    obtain ⟨part', inside, partExpands⟩ := Constant.expand_of_mem constantExpands member
    exact ⟨part', partExpands, .within inside (.itself _)⟩
  | boolCons constant tail =>
    simp only [Ty.expand] at expands
    rw [(constant.regular_expand.lawful depth).run_map₂_eq_ok_iff
      (tail.regular_expand.lawful depth)] at expands
    obtain ⟨constant', tail', constantExpands, tailExpands, rfl⟩ := expands
    simp only [parts, List.mem_append, List.mem_singleton] at member
    rcases member with member | rfl
    · obtain ⟨part', inside, partExpands⟩ := Constant.expand_of_mem constantExpands member
      exact ⟨part', partExpands, .within (List.mem_append_left _ inside) (.itself _)⟩
    · exact ⟨tail', Ty.run_expand_outermost tailExpands,
        .within (by simp [parts]) (.itself _)⟩
  | list tokens =>
    obtain ⟨written, values, writes, _, makes, rfl⟩ :=
      Literal.builds_list.run_eq_ok_iff.mp expands
    rw [parts, writes.filterMap] at member
    obtain ⟨part', inside, partExpands⟩ :=
      exists_of_mem_forall₂ (makes.outward Ty.regular_expand) member
    exact ⟨part', partExpands, Ty.contains_chain inside⟩
  | boolList tokens =>
    obtain ⟨written, values, writes, _, makes, rfl⟩ :=
      Literal.builds_boolList.run_eq_ok_iff.mp expands
    rw [parts, writes.filterMap] at member
    obtain ⟨constant, inside, member⟩ := List.mem_flatMap.mp member
    obtain ⟨constant', inside', constantExpands⟩ :=
      exists_of_mem_forall₂ (makes.outward Constant.regular_expand) inside
    obtain ⟨part', named, partExpands⟩ := Constant.expand_of_mem constantExpands member
    exact ⟨part', partExpands, Ty.contains_boolChain inside' named⟩
  | output subject =>
    simp only [Ty.expand, run_map_eq_ok_iff] at expands
    obtain ⟨subject', subjectExpands, rfl⟩ := expands
    cases List.mem_singleton.mp member
    exact ⟨subject', Ty.run_expand_outermost subjectExpands,
      .within (List.mem_singleton_self _) (.itself _)⟩
  | select subject =>
    simp only [Ty.expand, run_map_eq_ok_iff] at expands
    obtain ⟨subject', subjectExpands, rfl⟩ := expands
    cases List.mem_singleton.mp member
    exact ⟨subject', Ty.run_expand_outermost subjectExpands,
      .within (List.mem_singleton_self _) (.itself _)⟩

/-- Whatever stands in a type that expands does so on its own, to a type in the expansion. -/
theorem Ty.Contains.expand {whole part : Ty} (contains : whole.Contains part) {plain : Ty}
    (expands : Expanding.run limit (whole.expand 0) = .ok plain) :
    ∃ plainPart, Expanding.run limit (part.expand 0) = .ok plainPart ∧ plain.Contains plainPart := by
  -- The way to the part leads through an expansion at every step.
  induction contains generalizing plain with
  | itself type => exact ⟨plain, expands, .itself plain⟩
  | within member _ ih =>
    obtain ⟨plainPart, partExpands, inside⟩ := Ty.expand_of_mem expands member
    obtain ⟨plainInner, innerExpands, inside'⟩ := ih partExpands
    exact ⟨plainInner, innerExpands, inside.trans inside'⟩

end TypeLists
