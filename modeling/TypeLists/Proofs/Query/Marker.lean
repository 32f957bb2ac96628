import TypeLists.Proofs.Answer
import TypeLists.Proofs.Form.Fields
import TypeLists.Proofs.Query

/-! Marker traits see neither the elements of lists nor what guards guard: both are only carried, and what is
only carried can be replaced without a change in any marker trait. -/

namespace TypeLists

/-- The forms differ in what list nodes and guards carry alone, at any depth. -/
inductive Form.SameButCarried : Form → Form → Prop where
  /-- A list node carries its head and its tail. -/
  | cons (head head' tail tail' : Form) : SameButCarried (.cons head tail) (.cons head' tail')
  | boolCons (value : Option Bool) (tail tail' : Form) :
    SameButCarried (.boolCons value tail) (.boolCons value tail')
  | boolGuard (inner inner' : Form) :
    SameButCarried (.wrap .boolGuard inner) (.wrap .boolGuard inner')
  | typeGuard (inner inner' : Form) :
    SameButCarried (.wrap .typeGuard inner) (.wrap .typeGuard inner')
  | atom (leaf : Atom) : SameButCarried (.atom leaf) (.atom leaf)
  | bool (value : Option Bool) : SameButCarried (.bool value) (.bool value)
  | hole (cause : Hole) : SameButCarried (.hole cause) (.hole cause)
  | wrap (wrapper : Wrapper) {inner inner' : Form} (same : SameButCarried inner inner') :
    SameButCarried (.wrap wrapper inner) (.wrap wrapper inner')
  | combine (combinator : Combinator) {left left' right right' : Form}
      (first : SameButCarried left left') (second : SameButCarried right right') :
    SameButCarried (.combine combinator left right) (.combine combinator left' right')
  | choice {condition condition' positive positive' negative negative' : Form}
      (first : SameButCarried condition condition') (second : SameButCarried positive positive')
      (third : SameButCarried negative negative') :
    SameButCarried (.choice condition positive negative) (.choice condition' positive' negative')
  | tuple {members members' : List Form} (same : List.Forall₂ SameButCarried members members') :
    SameButCarried (.tuple members) (.tuple members')
  | function {arguments arguments' : List Form} {result result' : Form}
      (first : List.Forall₂ SameButCarried arguments arguments')
      (second : SameButCarried result result') :
    SameButCarried (.function arguments result) (.function arguments' result')

namespace Form

/-- List nodes, booleans and guards have all marker traits, whatever they carry. -/
theorem Private.auto {form : Form} (unseen : form.Private) (trait : AutoTrait) :
    form.auto trait = true := by
  -- Only guards are among the formers with one parameter.
  cases form with
  | cons head tail => rfl
  | boolCons value tail => rfl
  | bool value => rfl
  | wrap wrapper inner =>
    cases wrapper with
    | boolGuard => cases trait <;> rfl
    | typeGuard => cases trait <;> rfl
    | _ => cases unseen
  | _ => cases unseen

mutual

/-- What is only carried has no part in marker traits, nor in how deep the search for them goes. -/
theorem SameButCarried.auto_eq : ∀ {form form' : Form}, form.SameButCarried form' →
    ∀ trait, form.auto trait = form'.auto trait ∧ form.autoDepth trait = form'.autoDepth trait
  -- All three traits go together, since the search for one of them may ask for another one below.
  | .atom _, _, same, trait | .bool _, _, same, trait | .hole _, _, same, trait
  | .cons _ _, _, same, trait | .boolCons _ _, _, same, trait => by
    cases same
    exact ⟨rfl, rfl⟩
  | .wrap wrapper inner, _, same, trait => by
    cases same with
    | boolGuard _ inner' => cases trait <;> exact ⟨rfl, rfl⟩
    | typeGuard _ inner' => cases trait <;> exact ⟨rfl, rfl⟩
    | wrap _ same =>
      rw [auto, auto, autoDepth, autoDepth]
      cases wrapper.need trait with
      | always depth => exact ⟨rfl, rfl⟩
      | never => exact ⟨rfl, rfl⟩
      | parameter needed below =>
        obtain ⟨has, deep⟩ := same.auto_eq needed
        exact ⟨has, congrArg (· + below) deep⟩
  | .combine _ left right, _, same, trait => by
    cases same with
    | combine _ first second =>
      obtain ⟨has, deep⟩ := first.auto_eq trait
      obtain ⟨has', deep'⟩ := second.auto_eq trait
      rw [auto, auto, autoDepth, autoDepth, has, has', deep, deep']
      exact ⟨rfl, rfl⟩
  | .choice condition positive negative, _, same, trait => by
    cases same with
    | choice first second third =>
      obtain ⟨has, deep⟩ := first.auto_eq trait
      obtain ⟨has', deep'⟩ := second.auto_eq trait
      obtain ⟨has'', deep''⟩ := third.auto_eq trait
      rw [auto, auto, autoDepth, autoDepth, has, has', has'', deep, deep', deep'']
      exact ⟨rfl, rfl⟩
  | .tuple members, _, same, trait => by
    cases same with
    | tuple same =>
      obtain ⟨has, deep⟩ := allAuto_eq same trait
      rw [auto, auto, autoDepth, autoDepth, has, deep]
      exact ⟨rfl, rfl⟩
  | .function _ _, _, same, trait => by
    cases same with
    | function first second => exact ⟨rfl, rfl⟩

theorem allAuto_eq : ∀ {forms forms' : List Form}, List.Forall₂ SameButCarried forms forms' →
    ∀ trait, allAuto trait forms = allAuto trait forms' ∧
      allAutoDepth trait forms = allAutoDepth trait forms'
  | [], _, same, trait => by
    cases same
    exact ⟨rfl, rfl⟩
  | head :: rest, _, same, trait => by
    cases same with
    | cons first others =>
      obtain ⟨has, deep⟩ := first.auto_eq trait
      obtain ⟨has', deep'⟩ := allAuto_eq others trait
      rw [allAuto, allAuto, allAutoDepth, allAutoDepth, has, has', deep, deep']
      exact ⟨rfl, rfl⟩

end

/-- Forms that have a marker trait alike, and by proofs of one depth, meet it alike. -/
theorem unmet_auto_congr {form form' : Form} {trait : AutoTrait} (limit : Nat)
    (settled : form.settled) (settled' : form'.settled) (has : form.auto trait = form'.auto trait)
    (deep : form.autoDepth trait = form'.autoDepth trait) :
    form.unmet limit (.auto trait) = form'.unmet limit (.auto trait) := by
  have implements : form.implements (.auto trait) = form'.implements (.auto trait) := has
  have depth : form.proofDepth (.auto trait) = form'.proofDepth (.auto trait) := deep
  rw [unmet, unmet, settled, settled', implements, depth]
  rfl

end Form

namespace Program

variable {program : Program} {type : Ty} {form : Form}

/-- The formers in which what stands below is held or referred to, and not only carried. -/
def holders : List (Ty → Ty) :=
  [fun inner => .tuple [inner], .wrap (.ref .static), .wrap .cell, .wrap .phantom]

/-- What the marker traits of a type see of its list nodes, booleans and guards. -/
structure Ignores (program : Program) (type : Ty) (form : Form) : Prop where
  /-- List nodes, booleans and guards anywhere in the type have all marker traits. -/
  unconditional : ∀ part, form.Contains part → part.Private → ∀ trait, part.auto trait = true
  /-- No list node, boolean or guard is left where each has its fields in place of it. -/
  exposed : form.opened.Exposed
  /-- The fields have the same marker traits by the rules of the other formers. -/
  fields : ∀ trait, form.opened.auto trait = form.auto trait
  /-- The program answers for the type as it would for the fields. -/
  answer : ∀ trait, program.answer (.implements (.auto trait) type) =
    Fault.refuse (form.opened.unmet program.limit (.auto trait)) (.flag true)
  /-- Other types can be carried in place of those that are, without a change in any marker trait. -/
  carried : ∀ {type' form'}, program.Gives type' form' → form.SameButCarried form' → ∀ trait,
    form'.auto trait = form.auto trait ∧
      program.answer (.implements (.auto trait) type') =
        program.answer (.implements (.auto trait) type)

/-- The marker traits of a type with a normal form are those of its fields, whatever it carries. -/
theorem Gives.ignores (sound : program.Sound) (gives : program.Gives type form) :
    program.Ignores type form := by
  have settled := gives.wellFormed.settled not_false
  exact {
    unconditional := fun part _ unseen => unseen.auto
    exposed := form.exposed_opened
    fields := form.auto_opened
    answer := fun trait => by
      rw [gives.answer_implements sound, Form.unmet_auto_congr program.limit settled
        (Form.settled_opened settled) (form.auto_opened trait).symm (form.autoDepth_opened trait).symm]
    carried := fun gives' same trait => by
      obtain ⟨has, deep⟩ := same.auto_eq trait
      refine ⟨has.symm, ?_⟩
      rw [gives.answer_implements sound, gives'.answer_implements sound,
        Form.unmet_auto_congr program.limit settled (gives'.wellFormed.settled not_false) has deep] }

/-- A pointer in place of a type that can be sent is seen through every former that holds it. -/
theorem answer_holders (sound : program.Sound) (room : 2 ≤ program.limit) : ∀ holder ∈ holders,
    program.answer (.implements (.auto .send) (holder .nil)) = .ok (.flag true) ∧
      program.answer (.implements (.auto .send) (holder (.wrap .ptr .nil))) = .error .illTyped := by
  -- All holders ask for a trait of their parameters, and find out at the second level.
  have asked {type : Ty} {form : Form} (gives : program.Gives type form)
      (deep : form.autoDepth .send = 2) : program.answer (.implements (.auto .send) type) =
        Fault.refuse (if form.auto .send then [] else [.illTyped]) (.flag true) := by
    have shallow : ¬ program.limit < form.proofDepth (.auto .send) := by
      rw [Form.proofDepth, deep]
      omega
    rw [gives.answer_implements sound, Form.unmet, gives.wellFormed.settled not_false,
      if_neg shallow]
    rfl
  have has {type : Ty} {form : Form} (gives : program.Gives type form)
      (deep : form.autoDepth .send = 2) (has : form.auto .send = true) :
      program.answer (.implements (.auto .send) type) = .ok (.flag true) := by
    rw [asked gives deep, has]
    rfl
  have lacks {type : Ty} {form : Form} (gives : program.Gives type form)
      (deep : form.autoDepth .send = 2) (lacks : form.auto .send = false) :
      program.answer (.implements (.auto .send) type) = .error .illTyped := by
    rw [asked gives deep, lacks]
    rfl
  obtain ⟨scope, opens, _⟩ := sound
  cases opens.eq_scope
  intro holder member
  simp only [holders, List.mem_cons, List.not_mem_nil, or_false] at member
  rcases member with rfl | rfl | rfl | rfl
  all_goals
    exact ⟨has ⟨_, _, opens, rfl, rfl⟩ rfl rfl, lacks ⟨_, _, opens, rfl, rfl⟩ rfl rfl⟩

/--
Marker traits never see what list nodes and guards carry: they are those of the fields, and nothing that is
only carried matters for them, while the same exchange below formers that hold their parameters can matter.
-/
theorem marker_traits_ignore_carried (sound : program.Sound) :
    (∀ {type form}, program.Gives type form → program.Ignores type form) ∧
      (2 ≤ program.limit → ∀ holder ∈ holders,
        program.answer (.implements (.auto .send) (holder .nil)) = .ok (.flag true) ∧
          program.answer (.implements (.auto .send) (holder (.wrap .ptr .nil))) =
            .error .illTyped) :=
  ⟨fun gives => gives.ignores sound, answer_holders sound⟩

/-- A list of pointers can be sent as one of anything else can, and a cell with a pointer cannot. -/
theorem marker_traits_ignore_pointers :
    bare.answer (.implements (.auto .send) (.cons (.wrap .ptr .nil) .nil)) = .ok (.flag true) ∧
      bare.answer (.implements (.auto .send) (.wrap .cell (.wrap .ptr .nil))) = .error .illTyped := by
  have both := marker_traits_ignore_carried sound_bare
  have list : bare.Gives (.cons .nil .nil) (.cons .nil .nil) := ⟨_, _, opens_bare, rfl, rfl⟩
  have pointers : bare.Gives (.cons (.wrap .ptr .nil) .nil) (.cons (.wrap .ptr .nil) .nil) :=
    ⟨_, _, opens_bare, rfl, rfl⟩
  have same := (both.1 list).carried pointers (.cons _ _ _ _) .send
  have held := both.2 (by decide) (.wrap .cell) (by simp [holders])
  exact ⟨same.2.trans rfl, held.2⟩

end Program

end TypeLists
