import TypeLists.Form.Emptiness
import TypeLists.Proofs.Form.Chain
import TypeLists.Proofs.Form.Fields

/-! Which forms have values: list nodes, booleans and guards have none, as one of their fields has none, but the
fields are private, so that this cannot be seen from outside. -/

namespace TypeLists

/-- A value under the former owns values of the parameter. -/
def Wrapper.owns : Wrapper → Bool
  -- Addresses and markers own nothing, an option need not, and unsized rows are no values.
  | array length => 0 < length
  | cell | not | force => true
  | _ => false

/-- The former is a guard, whose fields are private. -/
def Wrapper.guards : Wrapper → Bool
  | boolGuard | typeGuard => true
  | _ => false

namespace Form

/-- A value of the form can be built by someone who may fill in private fields. -/
inductive HasValue : Form → Prop where
  /-- The ends of lists have no variants. -/
  | atom {leaf : Atom} (variants : leaf ≠ .nil ∧ leaf ≠ .boolNil) : HasValue (.atom leaf)
  | free {wrapper : Wrapper} {inner : Form} (exposed : !wrapper.guards) (free : !wrapper.owns) :
    HasValue (.wrap wrapper inner)
  | owning {wrapper : Wrapper} {inner : Form} (owns : wrapper.owns) (held : HasValue inner) :
    HasValue (.wrap wrapper inner)
  | combine {combinator : Combinator} {left right : Form} (first : HasValue left) (second : HasValue right) :
    HasValue (.combine combinator left right)
  | choice {condition positive negative : Form} (first : HasValue condition) (second : HasValue positive)
      (third : HasValue negative) : HasValue (.choice condition positive negative)
  | tuple {members : List Form} (values : ∀ member ∈ members, HasValue member) : HasValue (.tuple members)
  | function {arguments : List Form} {result : Form} : HasValue (.function arguments result)
  /-- Nothing is known against a type that is not known. -/
  | hole {cause : Hole} : HasValue (.hole cause)
  /-- A value with private fields is built from values of its fields. -/
  | built {form : Form} (hidden : form.Private) (fields : HasValue form.opened) : HasValue form

end Form

mutual

/-- The form has no values, if all fields are looked at. -/
def Form.empty : Form → Bool
  -- One field without values is enough.
  | .atom leaf => leaf = .nil || leaf = .boolNil
  | .wrap wrapper inner => wrapper.guards || wrapper.owns && inner.empty
  | .cons _ _ | .bool _ | .boolCons _ _ => true
  | .combine _ left right => left.empty || right.empty
  | .choice condition positive negative => condition.empty || positive.empty || negative.empty
  | .tuple members => Form.anyEmpty members
  | .function _ _ | .hole _ => false

/-- One of the forms has no values. -/
def Form.anyEmpty : List Form → Bool
  | [] => false
  | head :: rest => head.empty || Form.anyEmpty rest

end

mutual

/-- The form with a structure of which nothing is known in place of every list node, boolean and guard. -/
def Form.masked : Form → Form
  -- Such a structure has values as far as can be seen.
  | .cons _ _ | .bool _ | .boolCons _ _ => .atom .notEvaluable
  | .wrap wrapper inner => if wrapper.guards then .atom .notEvaluable else .wrap wrapper inner.masked
  | .atom leaf => .atom leaf
  | .combine combinator left right => .combine combinator left.masked right.masked
  | .choice condition positive negative => .choice condition.masked positive.masked negative.masked
  | .tuple members => .tuple (Form.allMasked members)
  | .function arguments result => .function (Form.allMasked arguments) result.masked
  | .hole cause => .hole cause

/-- Some forms with a structure of which nothing is known in place of list nodes, booleans and guards. -/
def Form.allMasked : List Form → List Form
  | [] => []
  | head :: rest => head.masked :: Form.allMasked rest

end

/-- The fields of guards hold no values of the parameter. -/
theorem Wrapper.owns_of_guards {wrapper : Wrapper} (guards : wrapper.guards) : wrapper.owns = false := by
  cases wrapper <;> first | rfl | cases guards

namespace Form

theorem private_wrap_iff {wrapper : Wrapper} {inner : Form} :
    (wrap wrapper inner).Private ↔ wrapper.guards := by
  cases wrapper <;> simp [Private, Wrapper.guards]

/-- A former with private fields cannot be built, as the first of its fields has no values. -/
theorem Private.not_hasValue {form : Form} (hidden : form.Private) : ¬ form.HasValue := by
  have never : ¬ Form.never.HasValue := by
    rintro (⟨variants, _⟩ | _ | _ | _ | _ | _ | _ | _ | ⟨hidden, _⟩)
    · exact variants rfl
    · exact hidden
  have fields : ∃ others, form.opened = .tuple (.never :: others) := by
    cases form with
    | cons _ _ | boolCons _ _ | bool _ => exact ⟨_, rfl⟩
    | wrap wrapper _ =>
      cases wrapper with
      | boolGuard | typeGuard => exact ⟨_, rfl⟩
      | _ => exact hidden.elim
    | _ => exact hidden.elim
  have unbuilt : ¬ form.opened.HasValue := by
    obtain ⟨others, same⟩ := fields
    rw [same]
    rintro (_ | _ | _ | _ | _ | values | _ | _ | ⟨hidden, _⟩)
    · exact never (values _ List.mem_cons_self)
    · exact hidden
  intro value
  cases value with
  | built _ fields => exact unbuilt fields
  | free exposed _ => simp [private_wrap_iff.mp hidden] at exposed
  | owning owns _ => simp [Wrapper.owns_of_guards (private_wrap_iff.mp hidden)] at owns
  | _ => exact hidden

theorem hasValue_atom_iff {leaf : Atom} : (atom leaf).HasValue ↔ leaf ≠ .nil ∧ leaf ≠ .boolNil := by
  refine ⟨?_, .atom⟩
  rintro (variants | _ | _ | _ | _ | _ | _ | _ | ⟨hidden, _⟩)
  · exact variants
  · exact hidden.elim

/-- A value under a former that is no guard needs a value of the parameter, if it owns one. -/
theorem hasValue_wrap_iff {wrapper : Wrapper} {inner : Form} :
    (wrap wrapper inner).HasValue ↔ !wrapper.guards ∧ (wrapper.owns → inner.HasValue) := by
  by_cases guards : wrapper.guards
  · exact iff_of_false (private_wrap_iff.mpr guards).not_hasValue (by simp [guards])
  · constructor
    · rintro (_ | ⟨exposed, free⟩ | ⟨owns, held⟩ | _ | _ | _ | _ | _ | ⟨hidden, _⟩)
      · exact ⟨exposed, fun owns => by simp [owns] at free⟩
      · exact ⟨by simp [guards], fun _ => held⟩
      · exact absurd (private_wrap_iff.mp hidden) guards
    · rintro ⟨exposed, held⟩
      by_cases owns : wrapper.owns
      · exact .owning owns (held owns)
      · exact .free exposed (by simp [owns])

theorem hasValue_combine_iff {combinator : Combinator} {left right : Form} :
    (combine combinator left right).HasValue ↔ left.HasValue ∧ right.HasValue := by
  refine ⟨?_, fun both => .combine both.1 both.2⟩
  rintro (_ | _ | _ | ⟨first, second⟩ | _ | _ | _ | _ | ⟨hidden, _⟩)
  · exact ⟨first, second⟩
  · exact hidden.elim

theorem hasValue_choice_iff {condition positive negative : Form} :
    (choice condition positive negative).HasValue ↔
      condition.HasValue ∧ positive.HasValue ∧ negative.HasValue := by
  refine ⟨?_, fun all => .choice all.1 all.2.1 all.2.2⟩
  rintro (_ | _ | _ | _ | ⟨first, second, third⟩ | _ | _ | _ | ⟨hidden, _⟩)
  · exact ⟨first, second, third⟩
  · exact hidden.elim

theorem hasValue_tuple_iff {members : List Form} :
    (tuple members).HasValue ↔ ∀ member ∈ members, member.HasValue := by
  refine ⟨?_, .tuple⟩
  rintro (_ | _ | _ | _ | _ | values | _ | _ | ⟨hidden, _⟩)
  · exact values
  · exact hidden.elim

mutual

/-- A form is empty exactly if no value of it can be built, whatever fields are filled in. -/
theorem empty_iff : ∀ form : Form, form.empty ↔ ¬ form.HasValue
  | .atom _ => by
    rw [hasValue_atom_iff, empty]
    simp [imp_iff_not_or]
  | .wrap wrapper inner => by
    rw [hasValue_wrap_iff, empty, Bool.or_eq_true, Bool.and_eq_true, empty_iff inner]
    cases wrapper.guards <;> simp
  | .cons _ _ | .bool _ | .boolCons _ _ => iff_of_true rfl (Private.not_hasValue trivial)
  | .combine _ left right => by
    rw [hasValue_combine_iff, empty, Bool.or_eq_true, empty_iff left, empty_iff right, not_and_or]
  | .choice condition positive negative => by
    rw [hasValue_choice_iff, empty, Bool.or_eq_true, Bool.or_eq_true, empty_iff condition,
      empty_iff positive, empty_iff negative, not_and_or, not_and_or, or_assoc]
  | .tuple members => by
    rw [hasValue_tuple_iff, empty, anyEmpty_iff members]
    simp
  | .function _ _ => iff_of_false (by simp [empty]) (not_not.mpr .function)
  | .hole _ => iff_of_false (by simp [empty]) (not_not.mpr .hole)

theorem anyEmpty_iff : ∀ forms : List Form, anyEmpty forms ↔ ∃ form ∈ forms, ¬ form.HasValue
  | [] => by simp [anyEmpty]
  | head :: rest => by simp [anyEmpty, empty_iff head, anyEmpty_iff rest]

end

/-- Every list is empty, however long it is. -/
theorem Chain.empty {form : Form} {kind : ListKind} {length : Nat} (chain : form.Chain kind length) :
    form.empty := by
  cases chain <;> rfl

/-- The ends of lists are enumerations, which have no fields to hide. -/
theorem visiblyEmpty_atom (leaf : Atom) : (atom leaf).visiblyEmpty = (atom leaf).empty := by
  cases leaf <;> rfl

/-- A value is looked for in what a former owns, unless the former is a cell, whose field is private. -/
theorem visiblyEmpty_wrap (wrapper : Wrapper) (inner : Form) :
    (wrap wrapper inner).visiblyEmpty = (wrapper ≠ .cell && wrapper.owns && inner.visiblyEmpty) := by
  cases wrapper <;> simp [visiblyEmpty, Wrapper.owns]

/-- A former with private fields is sized, and cannot be seen to be empty. -/
theorem Private.unseen {form : Form} (hidden : form.Private) :
    form.sized = true ∧ form.visiblyEmpty = false := by
  cases form with
  | wrap wrapper _ =>
    cases wrapper with
    | boolGuard | typeGuard => exact ⟨rfl, rfl⟩
    | _ => exact hidden.elim
  | cons _ _ | boolCons _ _ | bool _ => exact ⟨rfl, rfl⟩
  | _ => exact hidden.elim

mutual

/-- What can be seen to have no values has none. -/
theorem empty_of_visiblyEmpty : ∀ form : Form, form.visiblyEmpty → form.empty
  | .atom leaf, seen => by rwa [visiblyEmpty_atom] at seen
  | .wrap wrapper inner, seen => by
    rw [visiblyEmpty_wrap, Bool.and_eq_true, Bool.and_eq_true] at seen
    rw [empty, seen.1.2, inner.empty_of_visiblyEmpty seen.2, Bool.and_self, Bool.or_true]
  | .cons _ _, _ | .bool _, _ | .boolCons _ _, _ => rfl
  | .combine _ left right, seen => by
    rw [visiblyEmpty, Bool.or_eq_true] at seen
    rw [empty, Bool.or_eq_true]
    exact seen.imp left.empty_of_visiblyEmpty right.empty_of_visiblyEmpty
  | .choice condition positive negative, seen => by
    rw [visiblyEmpty, Bool.or_eq_true, Bool.or_eq_true] at seen
    rw [empty, Bool.or_eq_true, Bool.or_eq_true]
    exact seen.imp (Or.imp condition.empty_of_visiblyEmpty positive.empty_of_visiblyEmpty)
      negative.empty_of_visiblyEmpty
  | .tuple members, seen => anyEmpty_of_anyVisiblyEmpty members seen

theorem anyEmpty_of_anyVisiblyEmpty : ∀ forms : List Form, anyVisiblyEmpty forms → anyEmpty forms
  | head :: rest, seen => by
    rw [anyVisiblyEmpty, Bool.or_eq_true] at seen
    rw [anyEmpty, Bool.or_eq_true]
    exact seen.imp head.empty_of_visiblyEmpty (anyEmpty_of_anyVisiblyEmpty rest)

end

/-- No cell stands in the form. -/
def CellFree (form : Form) : Prop :=
  ∀ inner, ¬ form.Contains (.wrap .cell inner)

theorem cellFree_of_parts {form : Form} (own : ∀ inner, form ≠ .wrap .cell inner)
    (parts : ∀ part ∈ form.parts, part.CellFree) : form.CellFree := by
  intro inner contains
  cases contains with
  | itself => exact own inner rfl
  | within member contains => exact parts _ member inner contains

theorem CellFree.part {whole part : Form} (free : whole.CellFree) (member : part ∈ whole.parts) :
    part.CellFree :=
  fun inner contains => free inner (.within member contains)

mutual

/-- Without cells, what can be seen to be empty is what is empty behind masks. -/
theorem visiblyEmpty_eq : ∀ form : Form, form.CellFree → form.visiblyEmpty = form.masked.empty
  | .atom leaf, _ => visiblyEmpty_atom leaf
  | .wrap wrapper inner, free => by
    have same := inner.visiblyEmpty_eq (free.part List.mem_cons_self)
    have other : wrapper ≠ .cell := by
      rintro rfl
      exact free inner (.itself _)
    rw [visiblyEmpty_wrap, masked, same]
    by_cases guards : wrapper.guards
    · simp [guards, Wrapper.owns_of_guards guards, empty]
    · rw [if_neg guards]
      simp [empty, guards, other]
  | .cons _ _, _ | .bool _, _ | .boolCons _ _, _ => rfl
  | .combine _ left right, free => by
    rw [visiblyEmpty, masked, empty, left.visiblyEmpty_eq (free.part (by simp [parts])),
      right.visiblyEmpty_eq (free.part (by simp [parts]))]
  | .choice condition positive negative, free => by
    rw [visiblyEmpty, masked, empty, condition.visiblyEmpty_eq (free.part (by simp [parts])),
      positive.visiblyEmpty_eq (free.part (by simp [parts])),
      negative.visiblyEmpty_eq (free.part (by simp [parts]))]
  | .tuple members, free => anyVisiblyEmpty_eq members fun _ member => free.part member
  | .function _ _, _ | .hole _, _ => rfl

theorem anyVisiblyEmpty_eq : ∀ forms : List Form, (∀ form ∈ forms, form.CellFree) →
    anyVisiblyEmpty forms = anyEmpty (allMasked forms)
  | [], _ => rfl
  | head :: rest, free => by
    rw [anyVisiblyEmpty, allMasked, anyEmpty, head.visiblyEmpty_eq (free head List.mem_cons_self),
      anyVisiblyEmpty_eq rest fun form member => free form (List.mem_cons_of_mem _ member)]

end

/-- The field of a cell is private as well, but masks stand in front of list nodes, booleans and guards only. -/
example : (Form.wrap .cell .nil).masked.empty = true ∧ (Form.wrap .cell .nil).visiblyEmpty = false :=
  ⟨rfl, rfl⟩

end Form

end TypeLists
