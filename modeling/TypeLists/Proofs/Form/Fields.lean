import TypeLists.Form.Marker
import TypeLists.Proofs.Form.Living

/-! The fields of formers that keep them private: list nodes, booleans and guards are structures, and no rule
about lifetimes or marker traits treats them otherwise than their fields. -/

namespace TypeLists

namespace Form

/-- The type without values, by which a former cannot be built. -/
def never : Form := .nil

/-- The fields of a former that carries a type without holding a value of it. -/
def carrying (carried : Form) : Form :=
  .tuple [never, .wrap .phantom (.function [] carried)]

end Form

/-- The former with its fields in place of it, if it is a guard. -/
def Wrapper.opened (inner : Form) : Wrapper → Form
  -- The guard of a type accepts unsized types, which it can only mark.
  | boolGuard => .carrying inner
  | typeGuard => .carrying (.wrap .phantom inner)
  | other => .wrap other inner

mutual

/-- The form with the fields of every list node, boolean and guard in place of it. -/
def Form.opened : Form → Form
  -- The head of a node may be unsized, so that the node marks it next to its tail.
  | .atom leaf => .atom leaf
  | .wrap wrapper inner => wrapper.opened inner.opened
  | .cons head tail => .carrying (.tuple [.wrap .phantom head.opened, tail.opened])
  | .combine combinator left right => .combine combinator left.opened right.opened
  | .choice condition positive negative =>
    .choice condition.opened positive.opened negative.opened
  | .tuple members => .tuple (Form.allOpened members)
  | .function arguments result => .function (Form.allOpened arguments) result.opened
  | .bool _ => .tuple [.never]
  | .boolCons _ tail => .carrying tail.opened
  | .hole cause => .hole cause

/-- Some forms with the fields of private formers in place of them. -/
def Form.allOpened : List Form → List Form
  | [] => []
  | head :: rest => head.opened :: Form.allOpened rest

end

namespace Form

/-- The outermost former is a list node, a boolean or a guard, whose fields are private. -/
def Private : Form → Prop
  | .cons _ _ | .boolCons _ _ | .bool _ | .wrap .boolGuard _ | .wrap .typeGuard _ => True
  | _ => False

/-- No former with private fields stands anywhere in the form. -/
def Exposed (form : Form) : Prop :=
  ∀ part, form.Contains part → ¬ part.Private

/-- A form is exposed if its outermost former and its parts are. -/
theorem exposed_of_parts {form : Form} (plain : ¬ form.Private)
    (parts : ∀ part ∈ form.parts, part.Exposed) : form.Exposed := by
  -- Whatever the form contains is the form itself or lies in one of its parts.
  intro part contains
  cases contains with
  | itself => exact plain
  | within member contains => exact parts _ member part contains

theorem exposed_wrap {wrapper : Wrapper} {inner : Form} (plain : ¬ (wrap wrapper inner).Private)
    (exposed : inner.Exposed) : (wrap wrapper inner).Exposed :=
  exposed_of_parts plain fun _ member => List.mem_singleton.mp member ▸ exposed

theorem exposed_tuple {members : List Form} (exposed : ∀ member ∈ members, member.Exposed) :
    (tuple members).Exposed :=
  exposed_of_parts not_false exposed

theorem exposed_never : never.Exposed :=
  exposed_of_parts not_false nofun

theorem exposed_carrying {carried : Form} (exposed : carried.Exposed) :
    (carrying carried).Exposed := by
  -- The fields are built of a tuple, a marker and a function, none of which is private.
  have function : (function [] carried).Exposed :=
    exposed_of_parts not_false fun _ member => List.mem_singleton.mp member ▸ exposed
  refine exposed_tuple ?_
  simp only [List.forall_mem_cons]
  exact ⟨exposed_never, exposed_wrap not_false function, List.forall_mem_nil _⟩

mutual

/-- No former with private fields is left where each has its fields in place of it. -/
theorem exposed_opened : ∀ form : Form, form.opened.Exposed
  -- Private formers become fields that are not private, and all others keep their opened parts.
  | .atom _ | .hole _ => exposed_of_parts not_false nofun
  | .wrap wrapper inner => by
    have exposed := inner.exposed_opened
    cases wrapper with
    | boolGuard => exact exposed_carrying exposed
    | typeGuard => exact exposed_carrying (exposed_wrap not_false exposed)
    | _ => exact exposed_wrap not_false exposed
  | .cons head tail => by
    refine exposed_carrying (exposed_tuple ?_)
    simp only [List.forall_mem_cons]
    exact ⟨exposed_wrap not_false head.exposed_opened, tail.exposed_opened, List.forall_mem_nil _⟩
  | .combine _ left right => by
    refine exposed_of_parts not_false ?_
    simp only [opened, parts, List.forall_mem_cons]
    exact ⟨left.exposed_opened, right.exposed_opened, List.forall_mem_nil _⟩
  | .choice condition positive negative => by
    refine exposed_of_parts not_false ?_
    simp only [opened, parts, List.forall_mem_cons]
    exact ⟨condition.exposed_opened, positive.exposed_opened, negative.exposed_opened,
      List.forall_mem_nil _⟩
  | .tuple members => exposed_tuple (exposed_allOpened members)
  | .function arguments result => by
    refine exposed_of_parts not_false ?_
    simp only [opened, parts, List.forall_mem_append, List.forall_mem_singleton]
    exact ⟨exposed_allOpened arguments, result.exposed_opened⟩
  | .bool _ => exposed_tuple fun _ member => List.mem_singleton.mp member ▸ exposed_never
  | .boolCons _ tail => exposed_carrying tail.exposed_opened

theorem exposed_allOpened : ∀ forms : List Form, ∀ form ∈ allOpened forms, form.Exposed
  | [], _, member => nomatch member
  | head :: rest, form, member => by
    rcases List.mem_cons.mp member with rfl | member
    · exact head.exposed_opened
    · exact exposed_allOpened rest form member

end

/-- A type that is carried keeps its place, since the fields that carry it only give it back. -/
theorem lifetimes_carrying (place : Variance) (carried : Form) :
    (carrying carried).lifetimes place = carried.lifetimes place := by
  -- A marker and the result of a function are places like the one that they stand at.
  simp [carrying, never, nil, lifetimes, allLifetimes, Wrapper.varies, Wrapper.mutable]

mutual

/-- The references of a form stand at the same places among the fields of its formers. -/
theorem lifetimes_opened (place : Variance) : ∀ form : Form,
    form.opened.lifetimes place = form.lifetimes place
  -- What a private former carries is carried by its fields, in the same order.
  | .atom _ | .hole _ => rfl
  | .wrap wrapper inner => by
    cases wrapper with
    | boolGuard => rw [opened, Wrapper.opened, lifetimes_carrying, inner.lifetimes_opened place]; rfl
    | typeGuard =>
      rw [opened, Wrapper.opened, lifetimes_carrying, lifetimes, lifetimes]
      exact congrArg _ (inner.lifetimes_opened place)
    | _ => simp only [opened, Wrapper.opened, lifetimes, inner.lifetimes_opened]
  | .cons head tail => by
    rw [opened, lifetimes_carrying]
    simp [lifetimes, allLifetimes, Wrapper.varies, Wrapper.mutable, head.lifetimes_opened place,
      tail.lifetimes_opened place]
  | .combine _ left right => by
    rw [opened, lifetimes, lifetimes, left.lifetimes_opened place, right.lifetimes_opened place]
  | .choice condition positive negative => by
    rw [opened, lifetimes, lifetimes, condition.lifetimes_opened place,
      positive.lifetimes_opened place, negative.lifetimes_opened place]
  | .tuple members => by rw [opened, lifetimes, lifetimes, allLifetimes_opened place members]
  | .function arguments result => by
    rw [opened, lifetimes, lifetimes, allLifetimes_opened place.flip arguments,
      result.lifetimes_opened place]
  | .bool _ => rfl
  | .boolCons _ tail => by
    rw [opened, lifetimes_carrying, tail.lifetimes_opened place, lifetimes]

theorem allLifetimes_opened (place : Variance) : ∀ forms : List Form,
    allLifetimes place (allOpened forms) = allLifetimes place forms
  | [] => rfl
  | head :: rest => by
    rw [allOpened, allLifetimes, allLifetimes, head.lifetimes_opened place,
      allLifetimes_opened place rest]

end

/-- Lifetimes can be changed in a form exactly if they can be among the fields of its formers. -/
theorem adapts_opened (direction : Direction) (form : Form) :
    form.opened.adapts direction = form.adapts direction := by
  rw [adapts, lifetimes_opened, adapts]

/-- A type that is carried has no part in marker traits, since a function has all of them. -/
theorem auto_carrying (trait : AutoTrait) (carried : Form) : (carrying carried).auto trait = true := by
  cases trait <;> rfl

/-- The search for a marker trait ends at the function that carries a type. -/
theorem autoDepth_carrying (trait : AutoTrait) (carried : Form) :
    (carrying carried).autoDepth trait = 3 := by
  cases trait <;> rfl

mutual

/-- A form has a marker trait exactly if it has it by the fields of its formers. -/
theorem auto_opened : ∀ (form : Form) (trait : AutoTrait), form.opened.auto trait = form.auto trait
  -- All traits go together, since a former may ask for another trait of its parameter than its own.
  | .atom _, _ | .hole _, _ => rfl
  | .wrap wrapper inner, trait => by
    cases wrapper with
    | boolGuard => rw [opened, Wrapper.opened, auto_carrying]; cases trait <;> rfl
    | typeGuard => rw [opened, Wrapper.opened, auto_carrying]; cases trait <;> rfl
    | _ => simp only [opened, Wrapper.opened, auto, inner.auto_opened]
  | .cons _ _, trait | .boolCons _ _, trait => by rw [opened, auto_carrying, auto]
  | .combine _ left right, trait => by
    rw [opened, auto, auto, left.auto_opened trait, right.auto_opened trait]
  | .choice condition positive negative, trait => by
    rw [opened, auto, auto, condition.auto_opened trait, positive.auto_opened trait,
      negative.auto_opened trait]
  | .tuple members, trait => by rw [opened, auto, auto, allAuto_opened members trait]
  | .function _ _, _ => rfl
  | .bool _, trait => by cases trait <;> rfl

theorem allAuto_opened : ∀ (forms : List Form) (trait : AutoTrait),
    allAuto trait (allOpened forms) = allAuto trait forms
  | [], _ => rfl
  | head :: rest, trait => by
    rw [allOpened, allAuto, allAuto, head.auto_opened trait, allAuto_opened rest trait]

end

mutual

/-- The search for a marker trait goes as deep through the fields of the formers. -/
theorem autoDepth_opened : ∀ (form : Form) (trait : AutoTrait),
    form.opened.autoDepth trait = form.autoDepth trait
  -- The tuple of the fields, the marker in it and its function are three levels, as for the former itself.
  | .atom _, _ | .hole _, _ => rfl
  | .wrap wrapper inner, trait => by
    cases wrapper with
    | boolGuard => rw [opened, Wrapper.opened, autoDepth_carrying]; cases trait <;> rfl
    | typeGuard => rw [opened, Wrapper.opened, autoDepth_carrying]; cases trait <;> rfl
    | _ => simp only [opened, Wrapper.opened, autoDepth, inner.autoDepth_opened]
  | .cons _ _, trait | .boolCons _ _, trait => by rw [opened, autoDepth_carrying, autoDepth]
  | .combine _ left right, trait => by
    rw [opened, autoDepth, autoDepth, left.autoDepth_opened trait, right.autoDepth_opened trait]
  | .choice condition positive negative, trait => by
    rw [opened, autoDepth, autoDepth, condition.autoDepth_opened trait,
      positive.autoDepth_opened trait, negative.autoDepth_opened trait]
  | .tuple members, trait => by
    rw [opened, autoDepth, autoDepth, allAutoDepth_opened members trait]
  | .function _ _, _ => rfl
  | .bool _, trait => by cases trait <;> rfl

theorem allAutoDepth_opened : ∀ (forms : List Form) (trait : AutoTrait),
    allAutoDepth trait (allOpened forms) = allAutoDepth trait forms
  | [], _ => rfl
  | head :: rest, trait => by
    rw [allOpened, allAutoDepth, allAutoDepth, head.autoDepth_opened trait,
      allAutoDepth_opened rest trait]

end

mutual

/-- Fields are filled with the parts of a form, so that no hole is new among them. -/
theorem holes_opened {cause : Hole} : ∀ form : Form, cause ∈ form.opened.holes → cause ∈ form.holes
  -- The value of a boolean is lost on the way, and with it at most a hole.
  | .atom _, inside | .hole _, inside => inside
  | .wrap wrapper inner, inside => by
    have within : cause ∈ inner.opened.holes := by
      cases wrapper <;>
        simpa [opened, Wrapper.opened, carrying, never, nil, holes, allHoles] using inside
    exact inner.holes_opened within
  | .cons head tail, inside => by
    simp only [opened, carrying, never, nil, holes, allHoles, List.nil_append, List.append_nil,
      List.mem_append] at inside ⊢
    exact inside.imp head.holes_opened tail.holes_opened
  | .combine _ left right, inside => by
    simp only [opened, holes, List.mem_append] at inside ⊢
    exact inside.imp left.holes_opened right.holes_opened
  | .choice condition positive negative, inside => by
    simp only [opened, holes, List.mem_append] at inside ⊢
    exact inside.imp (Or.imp condition.holes_opened positive.holes_opened) negative.holes_opened
  | .tuple members, inside => allHoles_opened members inside
  | .function arguments result, inside => by
    simp only [opened, holes, List.mem_append] at inside ⊢
    exact inside.imp (allHoles_opened arguments) result.holes_opened
  | .bool _, inside => nomatch inside
  | .boolCons _ tail, inside => by
    simp only [opened, carrying, never, nil, holes, allHoles, List.nil_append, List.append_nil,
      List.mem_append] at inside ⊢
    exact .inr (tail.holes_opened inside)

theorem allHoles_opened {cause : Hole} : ∀ forms : List Form,
    cause ∈ allHoles (allOpened forms) → cause ∈ allHoles forms
  | [], inside => inside
  | head :: rest, inside => by
    simp only [allOpened, allHoles, List.mem_append] at inside ⊢
    exact inside.imp head.holes_opened (allHoles_opened rest)

end

/-- The fields of the formers are known where the whole form is. -/
theorem settled_opened {form : Form} (settled : form.settled) : form.opened.settled := by
  rw [Form.settled, List.all_eq_true] at settled ⊢
  exact fun cause inside => settled cause (form.holes_opened inside)

end Form

end TypeLists
