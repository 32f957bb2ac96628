import TypeLists.Generic
import TypeLists.Proofs.Normalization.Alike
import TypeLists.Proofs.WellFormed

/-! Forms in place of parameters: what a form implements whose parameters meet a bound, it implements for all
forms that do. -/

namespace TypeLists

/-- The hole is a parameter of a function with the bound. -/
def Hole.Given (bound : Option Bound) (hole : Hole) : Prop :=
  hole = .param true bound ∨ hole = .param false none

mutual

/-- The form with forms in place of the parameters, of which the first one is sized. -/
def Form.fill (forms : Form × Form) : Form → Form
  | .atom leaf => .atom leaf
  | .wrap wrapper inner => .wrap wrapper (inner.fill forms)
  | .cons head tail => .cons (head.fill forms) (tail.fill forms)
  | .combine combinator left right =>
    .combine combinator (left.fill forms) (right.fill forms)
  | .choice condition positive negative =>
    .choice (condition.fill forms) (positive.fill forms) (negative.fill forms)
  | .tuple members => .tuple (Form.fillAll forms members)
  | .function arguments result =>
    .function (Form.fillAll forms arguments) (result.fill forms)
  | .bool value => .bool value
  | .boolCons value tail => .boolCons value (tail.fill forms)
  | .hole (.param true _) => forms.1
  | .hole (.param false _) => forms.2
  | .hole .lost => .hole .lost

/-- Some forms with forms in place of the parameters. -/
def Form.fillAll (forms : Form × Form) : List Form → List Form
  | [] => []
  | head :: rest => head.fill forms :: Form.fillAll forms rest

end

/-- What a call gives to the parameters of a function: two known forms, of which the first meets the bound. -/
structure Bound.Met (bound : Option Bound) (forms : Form × Form) : Prop where
  expression : forms.1.holes = []
  type : forms.2.holes = []
  sized : forms.1.sized
  implements : ∀ demanded, bound = some demanded → forms.1.implements demanded.trait

namespace Form

variable {forms : Form × Form}

theorem fillAll_eq (parts : List Form) : fillAll forms parts = parts.map (fill forms) := by
  induction parts with
  | nil => rfl
  | cons head rest ih => rw [fillAll, ih, List.map_cons]

mutual

/-- A form without parameters stays as it is. -/
theorem fill_of_lost : ∀ form : Form, (∀ hole ∈ form.holes, hole = .lost) → form.fill forms = form
  -- A type that was lost is no parameter, and stays lost.
  | .atom _, _ | .bool _, _ => rfl
  | .wrap _ inner, closed => by rw [fill, inner.fill_of_lost closed]
  | .cons head tail, closed => by
    obtain ⟨first, second⟩ := List.forall_mem_append.mp closed
    rw [fill, head.fill_of_lost first, tail.fill_of_lost second]
  | .combine _ left right, closed => by
    obtain ⟨first, second⟩ := List.forall_mem_append.mp closed
    rw [fill, left.fill_of_lost first, right.fill_of_lost second]
  | .choice condition positive negative, closed => by
    obtain ⟨others, third⟩ := List.forall_mem_append.mp closed
    obtain ⟨first, second⟩ := List.forall_mem_append.mp others
    rw [fill, condition.fill_of_lost first, positive.fill_of_lost second, negative.fill_of_lost third]
  | .tuple members, closed => by rw [fill, fillAll_of_lost members closed]
  | .function arguments result, closed => by
    obtain ⟨first, second⟩ := List.forall_mem_append.mp closed
    rw [fill, fillAll_of_lost arguments first, result.fill_of_lost second]
  | .boolCons _ tail, closed => by
    rw [fill, tail.fill_of_lost (List.forall_mem_append.mp closed).2]
  | .hole .lost, _ => rfl
  | .hole (.param _ _), closed => absurd (closed _ List.mem_cons_self) nofun

theorem fillAll_of_lost : ∀ parts : List Form, (∀ hole ∈ allHoles parts, hole = .lost) →
    fillAll forms parts = parts
  | [], _ => rfl
  | head :: rest, closed => by
    obtain ⟨first, others⟩ := List.forall_mem_append.mp closed
    rw [fillAll, head.fill_of_lost first, fillAll_of_lost rest others]

end

theorem fill_of_closed {form : Form} (closed : form.closed) : form.fill forms = form :=
  form.fill_of_lost fun hole member => of_decide_eq_true (List.all_eq_true.mp closed hole member)

section Met

variable {bound : Option Bound}

mutual

/-- With known forms in place of its parameters, a form is known as a whole. -/
theorem holes_fill (met : Bound.Met bound forms) : ∀ form : Form, (∀ hole ∈ form.holes, hole.Given bound) →
    (form.fill forms).holes = []
  -- All holes are parameters, and each of them is replaced by a form without holes.
  | .atom _, _ => rfl
  | .wrap _ inner, given => inner.holes_fill met given
  | .cons head tail, given => by
    obtain ⟨first, second⟩ := List.forall_mem_append.mp given
    rw [fill, holes, head.holes_fill met first, tail.holes_fill met second, List.append_nil]
  | .combine _ left right, given => by
    obtain ⟨first, second⟩ := List.forall_mem_append.mp given
    rw [fill, holes, left.holes_fill met first, right.holes_fill met second, List.append_nil]
  | .choice condition positive negative, given => by
    obtain ⟨others, third⟩ := List.forall_mem_append.mp given
    obtain ⟨first, second⟩ := List.forall_mem_append.mp others
    rw [fill, holes, condition.holes_fill met first, positive.holes_fill met second,
      negative.holes_fill met third, List.append_nil, List.append_nil]
  | .tuple members, given => allHoles_fill met members given
  | .function arguments result, given => by
    obtain ⟨first, second⟩ := List.forall_mem_append.mp given
    rw [fill, holes, allHoles_fill met arguments first, result.holes_fill met second, List.append_nil]
  | .bool value, given => by
    cases value with
    | none => exact absurd (given .lost List.mem_cons_self) (by simp [Hole.Given])
    | some _ => rfl
  | .boolCons value tail, given => by
    obtain ⟨first, second⟩ := List.forall_mem_append.mp given
    cases value with
    | none => exact absurd (first .lost List.mem_cons_self) (by simp [Hole.Given])
    | some _ => exact tail.holes_fill met second
  | .hole (.param true _), _ => met.expression
  | .hole (.param false _), _ => met.type
  | .hole .lost, given => absurd (given .lost List.mem_cons_self) (by simp [Hole.Given])

theorem allHoles_fill (met : Bound.Met bound forms) : ∀ parts : List Form,
    (∀ hole ∈ allHoles parts, hole.Given bound) → allHoles (fillAll forms parts) = []
  | [], _ => rfl
  | head :: rest, given => by
    obtain ⟨first, others⟩ := List.forall_mem_append.mp given
    rw [fillAll, allHoles, head.holes_fill met first, allHoles_fill met rest others, List.append_nil]

end

mutual

/-- A form that is sized whatever its parameters stand for is sized. -/
theorem sized_fill (met : Bound.Met bound forms) : ∀ form : Form, form.sized → (form.fill forms).sized
  -- The size of the second parameter is unknown, so that nothing is sized that depends on it.
  | .atom _, sized => sized
  | .wrap wrapper inner, sized => by
    cases wrapper with
    | cell => exact inner.sized_fill met sized
    | slice => cases sized
    | _ => rfl
  | .cons _ _, _ | .combine _ _ _, _ | .choice _ _ _, _ | .function _ _, _ | .bool _, _
  | .boolCons _ _, _ => rfl
  | .tuple members, sized => lastSized_fill met members sized
  | .hole (.param true _), _ => met.sized
  | .hole (.param false _), sized => by cases sized
  | .hole .lost, _ => rfl

theorem lastSized_fill (met : Bound.Met bound forms) : ∀ parts : List Form, lastSized parts →
    lastSized (fillAll forms parts)
  | [], _ => rfl
  | [last], sized => last.sized_fill met sized
  | _ :: next :: rest, sized => lastSized_fill met (next :: rest) sized

end

theorem length?_fill (met : Bound.Met bound forms) (kind : ListKind) : ∀ form : Form,
    (∀ hole ∈ form.holes, hole.Given bound) → (form.length? kind).isSome →
      ((form.fill forms).length? kind).isSome
  -- Only the end of a chain can be a parameter, and then its bound makes it a list of the kind.
  | .cons _ tail, given, list => by
    cases kind with
    | types =>
      rw [length?, Option.isSome_map] at list
      rw [fill, length?, Option.isSome_map]
      exact tail.length?_fill met .types (List.forall_mem_append.mp given).2 list
    | bools => cases list
  | .boolCons _ tail, given, list => by
    cases kind with
    | types => cases list
    | bools =>
      rw [length?, Option.isSome_map] at list
      rw [fill, length?, Option.isSome_map]
      exact tail.length?_fill met .bools (List.forall_mem_append.mp given).2 list
  | .hole cause, given, list => by
    have meets : cause.meets (.list kind) := by
      cases kind <;> simpa [length?] using list
    rcases given cause List.mem_cons_self with rfl | rfl
    · exact met.implements (.list kind) (of_decide_eq_true meets)
    · cases meets
  | .atom _, _, list => list
  | .wrap _ _, _, list | .combine _ _ _, _, list | .choice _ _ _, _, list | .tuple _, _, list
  | .function _ _, _, list | .bool _, _, list => by cases kind <;> cases list

theorem formula?_fill (met : Bound.Met bound forms) : ∀ form : Form, (∀ hole ∈ form.holes, hole.Given bound) →
    form.formula?.isSome → (form.fill forms).formula?.isSome
  -- A disjunction needs a written boolean on its left, where no parameter stands.
  | .wrap wrapper inner, given, formula => by
    cases wrapper with
    | not =>
      rw [formula?, Option.isSome_map] at formula
      rw [fill, formula?, Option.isSome_map]
      exact inner.formula?_fill met given formula
    | force =>
      rw [formula?, Option.isSome_map] at formula
      rw [fill, formula?, Option.isSome_map]
      exact inner.formula?_fill met given formula
    | _ => cases formula
  | .combine .or (.bool (some false)) right, given, formula => by
    rw [formula?, Option.isSome_map] at formula
    rw [fill, fill, formula?, Option.isSome_map]
    exact right.formula?_fill met given formula
  | .combine .or (.bool (some true)) _, _, _ => rfl
  | .combine .or (.bool none) _, _, formula | .combine .or (.atom _) _, _, formula
  | .combine .or (.wrap _ _) _, _, formula | .combine .or (.cons _ _) _, _, formula
  | .combine .or (.combine _ _ _) _, _, formula | .combine .or (.choice _ _ _) _, _, formula
  | .combine .or (.tuple _) _, _, formula | .combine .or (.function _ _) _, _, formula
  | .combine .or (.boolCons _ _) _, _, formula | .combine .or (.hole _) _, _, formula => by cases formula
  | .combine .and left right, given, formula => by
    obtain ⟨first, second⟩ := List.forall_mem_append.mp given
    obtain ⟨whole, some⟩ := Option.isSome_iff_exists.mp formula
    simp only [formula?, Option.bind_eq_bind, Option.bind_eq_some_iff] at some
    obtain ⟨leftFormula, leftSome, rightFormula, rightSome, _⟩ := some
    obtain ⟨_, left'⟩ := Option.isSome_iff_exists.mp
      (left.formula?_fill met first (Option.isSome_of_eq_some leftSome))
    obtain ⟨_, right'⟩ := Option.isSome_iff_exists.mp
      (right.formula?_fill met second (Option.isSome_of_eq_some rightSome))
    rw [fill, formula?, left', right']
    rfl
  | .combine .shorter left right, given, formula => by
    obtain ⟨first, second⟩ := List.forall_mem_append.mp given
    obtain ⟨whole, some⟩ := Option.isSome_iff_exists.mp formula
    simp only [formula?, Option.bind_eq_bind, Option.bind_eq_some_iff] at some
    obtain ⟨leftLength, leftSome, rightLength, rightSome, _⟩ := some
    obtain ⟨_, left'⟩ := Option.isSome_iff_exists.mp
      (left.length?_fill met .types first (Option.isSome_of_eq_some leftSome))
    obtain ⟨_, right'⟩ := Option.isSome_iff_exists.mp
      (right.length?_fill met .types second (Option.isSome_of_eq_some rightSome))
    rw [fill, formula?, left', right']
    rfl
  | .hole cause, given, formula => by
    have meets : cause.meets .boolExpr := by
      by_contra other
      simp [formula?, other] at formula
    rcases given cause List.mem_cons_self with rfl | rfl
    · exact met.implements .boolExpr (of_decide_eq_true meets)
    · cases meets
  | .atom _, _, formula | .bool _, _, formula => formula
  | .cons _ _, _, formula | .choice _ _ _, _, formula | .tuple _, _, formula | .function _ _, _, formula
  | .boolCons _ _, _, formula => by cases formula

theorem output?_fill : ∀ {form inner : Form}, form.output? = some inner →
    (form.fill forms).output? = some (inner.fill forms)
  | .wrap wrapper _, _, output => by
    cases wrapper with
    | thunk =>
      cases output
      rfl
    | _ => cases output

theorem select?_fill (met : Bound.Met bound forms) : ∀ {form inner : Form}, form.select? = some inner →
    (form.fill forms).select? = some (inner.fill forms)
  -- The condition is a written boolean, so that the same branch is selected.
  | .choice (.bool (some true)) positive negative, _, select => by
    rw [select?] at select
    split at select
    · rename_i sized
      rw [fill, fill, select?, if_pos (negative.sized_fill met sized)]
      exact output?_fill select
    · cases select
  | .choice (.bool (some false)) positive negative, _, select => by
    rw [select?] at select
    split at select
    · rename_i sized
      rw [fill, fill, select?, if_pos (positive.sized_fill met sized)]
      exact output?_fill select
    · cases select

/-- What a form implements whatever its parameters stand for, it implements with forms in their place. -/
theorem implements_fill (met : Bound.Met bound forms) {form : Form}
    (given : ∀ hole ∈ form.holes, hole.Given bound) {trait : Trait} (asked : trait.Asked)
    (implements : form.implements trait) : (form.fill forms).implements trait := by
  cases trait with
  | list kind => exact form.length?_fill met kind given implements
  | boolExpr => exact form.formula?_fill met given implements
  | eval =>
    obtain ⟨inner, output⟩ := Option.isSome_iff_exists.mp implements
    exact Option.isSome_of_eq_some (output?_fill output)
  | select =>
    obtain ⟨inner, select⟩ := Option.isSome_iff_exists.mp implements
    exact Option.isSome_of_eq_some (select?_fill met select)
  | sized => exact form.sized_fill met implements
  | auto _ => cases asked
  | declared _ => cases asked

theorem settled_of_given {form : Form} (given : ∀ hole ∈ form.holes, hole.Given bound) : form.settled :=
  settled_of_holes (by simp [Hole.Given]) given

/-- A requirement that is met whatever the parameters stand for fails at most for its depth. -/
theorem unmet_fill (met : Bound.Met bound forms) {form : Form}
    (given : ∀ hole ∈ form.holes, hole.Given bound) (trait : Trait) (asked : trait.Asked) {limit : Nat}
    (clean : form.unmet limit trait = []) :
    ∀ fault ∈ (form.fill forms).unmet limit trait, fault = .tooDeep := by
  intro fault member
  have implements := form.implements_fill met given asked
    ((unmet_eq_nil_iff (settled_of_given given)).mp clean).2
  -- What is asked of the filled form is implemented, so that only the depth of its proof is left.
  rw [unmet] at member
  split at member
  · cases member
  · split at member
    · exact List.mem_singleton.mp member
    · cases member

theorem unguardable_fill (met : Bound.Met bound forms) {form : Form}
    (given : ∀ hole ∈ form.holes, hole.Given bound) {limit : Nat} (clean : form.unguardable limit = []) :
    ∀ fault ∈ (form.fill forms).unguardable limit, fault = .tooDeep := by
  obtain ⟨sized, boolExpr⟩ := List.append_eq_nil_iff.mp clean
  exact List.forall_mem_append.mpr
    ⟨form.unmet_fill met given .sized trivial sized, form.unmet_fill met given .boolExpr trivial boolExpr⟩

/-- A former whose rules are met whatever the parameters stand for breaks them at most for their depth. -/
theorem malformed_fill (met : Bound.Met bound forms) {form : Form} (former : ∀ cause, form ≠ .hole cause)
    (given : ∀ hole ∈ form.holes, hole.Given bound) {limit : Nat} (clean : form.malformed limit = []) :
    ∀ fault ∈ (form.fill forms).malformed limit, fault = .tooDeep := by
  -- The rule of every former is some requirements of its parts.
  cases form with
  | wrap wrapper inner =>
    have sized (needs : wrapper.needsSized → inner.unmet limit .sized = []) :
        ∀ fault ∈ (if wrapper.needsSized then (inner.fill forms).unmet limit .sized else []),
          fault = .tooDeep := by
      split
      · rename_i needed
        exact inner.unmet_fill met given .sized trivial (needs needed)
      · exact fun _ member => absurd member List.not_mem_nil
    cases wrapper with
    | boolGuard => exact inner.unguardable_fill met given clean
    | _ => exact sized fun needed => by simpa only [malformed, needed, if_pos] using clean
  | cons head tail =>
    exact tail.unmet_fill met (List.forall_mem_append.mp given).2 (.list .types) trivial clean
  | boolCons value tail =>
    exact tail.unmet_fill met (List.forall_mem_append.mp given).2 (.list .bools) trivial clean
  | combine combinator left right =>
    obtain ⟨first, second⟩ := List.forall_mem_append.mp given
    obtain ⟨leftClean, rightClean⟩ := List.append_eq_nil_iff.mp clean
    exact List.forall_mem_append.mpr ⟨left.unmet_fill met first .sized trivial leftClean,
      right.unmet_fill met second .sized trivial rightClean⟩
  | choice condition positive negative =>
    obtain ⟨others, third⟩ := List.forall_mem_append.mp given
    obtain ⟨first, second⟩ := List.forall_mem_append.mp others
    obtain ⟨othersClean, negativeClean⟩ := List.append_eq_nil_iff.mp clean
    obtain ⟨conditionClean, positiveClean⟩ := List.append_eq_nil_iff.mp othersClean
    exact List.forall_mem_append.mpr ⟨List.forall_mem_append.mpr
      ⟨condition.unmet_fill met first .sized trivial conditionClean,
        positive.unmet_fill met second .sized trivial positiveClean⟩,
      negative.unmet_fill met third .sized trivial negativeClean⟩
  | tuple members =>
    intro fault wrong
    rw [fill, malformed, fillAll_eq, ← List.map_dropLast, List.flatMap_map] at wrong
    obtain ⟨part, member, found⟩ := List.mem_flatMap.mp wrong
    have inside : part ∈ members := (List.dropLast_sublist members).subset member
    have known (hole : Hole) (own : hole ∈ part.holes) : hole.Given bound := by
      refine given hole ?_
      rw [holes, allHoles_eq]
      exact List.mem_flatMap.mpr ⟨part, inside, own⟩
    exact part.unmet_fill met known .sized trivial (List.flatMap_eq_nil_iff.mp clean part member) fault found
  | hole cause => exact absurd rfl (former cause)
  | _ => exact fun _ member => absurd member List.not_mem_nil

end Met

end Form

end TypeLists
