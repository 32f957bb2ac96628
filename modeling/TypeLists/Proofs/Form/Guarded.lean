import TypeLists.Proofs.Normalization.Alike
import TypeLists.Proofs.WellFormed

/-! What boolean guards guard in a form: once a guard accepts it, no rule of a type looks at it again. -/

namespace TypeLists

namespace Form

/-- Guards accept the form: it is a boolean expression without anything unknown in it. -/
structure Guardable (limit : Nat) (form : Form) : Prop where
  holes : form.holes = []
  met : form.unguardable limit = []

/-- The forms differ in nothing but in what guards of boolean expressions accept. -/
inductive SameButGuarded (limit : Nat) : Form → Form → Prop where
  | guard {inner inner' : Form} (accepts : inner.Guardable limit) (accepts' : inner'.Guardable limit) :
    SameButGuarded limit (.wrap .boolGuard inner) (.wrap .boolGuard inner')
  | atom (leaf : Atom) : SameButGuarded limit (.atom leaf) (.atom leaf)
  | wrap (wrapper : Wrapper) {inner inner' : Form} (same : SameButGuarded limit inner inner') :
    SameButGuarded limit (.wrap wrapper inner) (.wrap wrapper inner')
  | cons {head head' tail tail' : Form} (first : SameButGuarded limit head head')
      (second : SameButGuarded limit tail tail') :
    SameButGuarded limit (.cons head tail) (.cons head' tail')
  | combine (combinator : Combinator) {left left' right right' : Form}
      (first : SameButGuarded limit left left') (second : SameButGuarded limit right right') :
    SameButGuarded limit (.combine combinator left right) (.combine combinator left' right')
  | choice {condition condition' positive positive' negative negative' : Form}
      (first : SameButGuarded limit condition condition')
      (second : SameButGuarded limit positive positive')
      (third : SameButGuarded limit negative negative') :
    SameButGuarded limit (.choice condition positive negative) (.choice condition' positive' negative')
  | tuple {members members' : List Form} (same : List.Forall₂ (SameButGuarded limit) members members') :
    SameButGuarded limit (.tuple members) (.tuple members')
  | function {arguments arguments' : List Form} {result result' : Form}
      (first : List.Forall₂ (SameButGuarded limit) arguments arguments')
      (second : SameButGuarded limit result result') :
    SameButGuarded limit (.function arguments result) (.function arguments' result')
  | bool (value : Option Bool) : SameButGuarded limit (.bool value) (.bool value)
  | boolCons (value : Option Bool) {tail tail' : Form} (same : SameButGuarded limit tail tail') :
    SameButGuarded limit (.boolCons value tail) (.boolCons value tail')
  | hole (cause : Hole) : SameButGuarded limit (.hole cause) (.hole cause)

/-- All questions that types and constants ask of forms are answered the same. -/
structure AskedAlike (form form' : Form) : Prop where
  holes : form.holes = form'.holes
  sized : form.sized = form'.sized
  sizedDepth : form.sizedDepth = form'.sizedDepth
  length? : ∀ kind, form.length? kind = form'.length? kind
  listDepth : ∀ kind, form.listDepth kind = form'.listDepth kind
  formula? : form.formula? = form'.formula?
  formulaDepth : form.formulaDepth = form'.formulaDepth

variable {limit : Nat}

mutual

/-- A form differs from itself in nothing at all. -/
theorem sameButGuarded_refl : ∀ form : Form, form.SameButGuarded limit form
  | .atom leaf => .atom leaf
  | .wrap wrapper inner => .wrap wrapper inner.sameButGuarded_refl
  | .cons head tail => .cons head.sameButGuarded_refl tail.sameButGuarded_refl
  | .combine combinator left right => .combine combinator left.sameButGuarded_refl right.sameButGuarded_refl
  | .choice condition positive negative =>
    .choice condition.sameButGuarded_refl positive.sameButGuarded_refl negative.sameButGuarded_refl
  | .tuple members => .tuple (allSameButGuarded_refl members)
  | .function arguments result => .function (allSameButGuarded_refl arguments) result.sameButGuarded_refl
  | .bool value => .bool value
  | .boolCons value tail => .boolCons value tail.sameButGuarded_refl
  | .hole cause => .hole cause

theorem allSameButGuarded_refl : ∀ forms : List Form, List.Forall₂ (SameButGuarded limit) forms forms
  | [] => .nil
  | head :: rest => .cons head.sameButGuarded_refl (allSameButGuarded_refl rest)

end

mutual

/-- What guards accept plays no part in what forms are asked. -/
theorem SameButGuarded.askedAlike : ∀ {form form' : Form}, form.SameButGuarded limit form' →
    form.AskedAlike form'
  -- Only a guard may differ below, and no question goes on behind a guard.
  | .atom _, _, same | .bool _, _, same | .hole _, _, same => by
    cases same
    exact ⟨rfl, rfl, rfl, fun _ => rfl, fun _ => rfl, rfl, rfl⟩
  | .wrap wrapper inner, _, same => by
    cases same with
    | guard accepts accepts' =>
      exact ⟨accepts.holes.trans accepts'.holes.symm, rfl, rfl, by rintro ⟨⟩ <;> rfl,
        by rintro ⟨⟩ <;> rfl, rfl, rfl⟩
    | wrap _ same =>
      have alike := same.askedAlike
      refine ⟨alike.holes, ?_, ?_, by rintro ⟨⟩ <;> rfl, by rintro ⟨⟩ <;> rfl, ?_, ?_⟩
      · rw [sized, sized, alike.sized]
      · cases wrapper <;> simp only [sizedDepth, alike.sized, alike.sizedDepth]
      · cases wrapper <;> simp only [formula?, alike.formula?]
      · cases wrapper <;> simp only [formulaDepth, alike.formulaDepth]
  | .cons head tail, _, same => by
    cases same with
    | cons first second =>
      have alike := first.askedAlike
      have alike' := second.askedAlike
      refine ⟨by rw [holes, holes, alike.holes, alike'.holes], rfl, rfl, ?_, ?_, rfl, rfl⟩
      · rintro (_ | _) <;> simp only [length?, alike'.length?]
      · rintro (_ | _) <;> simp only [listDepth, alike'.listDepth]
  | .combine combinator left right, _, same => by
    cases same with
    | combine _ first second =>
      have alike := first.askedAlike
      have alike' := second.askedAlike
      refine ⟨by rw [holes, holes, alike.holes, alike'.holes], rfl, rfl, by rintro ⟨⟩ <;> rfl,
        by rintro ⟨⟩ <;> rfl, ?_, ?_⟩
      · cases combinator with
        | or =>
          -- A disjunction goes on behind a false literal, and literals are the same.
          cases first with
          | bool value => rcases value with _ | _ | _ <;> simp only [formula?, alike'.formula?]
          | _ => rfl
        | and => simp only [formula?, alike.formula?, alike'.formula?]
        | shorter => simp only [formula?, alike.length?, alike'.length?]
      · cases combinator with
        | or =>
          cases first with
          | bool value => rcases value with _ | _ | _ <;> simp only [formulaDepth, alike'.formulaDepth]
          | _ => rfl
        | and => simp only [formulaDepth, alike.formulaDepth, alike'.formulaDepth]
        | shorter => simp only [formulaDepth, alike.listDepth, alike'.listDepth]
  | .choice condition positive negative, _, same => by
    cases same with
    | choice first second third =>
      exact ⟨by rw [holes, holes, first.askedAlike.holes, second.askedAlike.holes, third.askedAlike.holes],
        rfl, rfl, by rintro ⟨⟩ <;> rfl, by rintro ⟨⟩ <;> rfl, rfl, rfl⟩
  | .tuple members, _, same => by
    cases same with
    | tuple same =>
      obtain ⟨holes', sized', depth⟩ := allAskedAlike same
      refine ⟨by rw [holes, holes, holes'], by rw [sized, sized, sized'], ?_, by rintro ⟨⟩ <;> rfl,
        by rintro ⟨⟩ <;> rfl, rfl, rfl⟩
      rw [sizedDepth, sizedDepth, sized', depth]
  | .function arguments result, _, same => by
    cases same with
    | function first second =>
      exact ⟨by rw [holes, holes, (allAskedAlike first).1, second.askedAlike.holes], rfl, rfl,
        by rintro ⟨⟩ <;> rfl, by rintro ⟨⟩ <;> rfl, rfl, rfl⟩
  | .boolCons value tail, _, same => by
    cases same with
    | boolCons _ same =>
      have alike := same.askedAlike
      refine ⟨by rw [holes, holes, alike.holes], rfl, rfl, ?_, ?_, rfl, rfl⟩
      · rintro (_ | _) <;> simp only [length?, alike.length?]
      · rintro (_ | _) <;> simp only [listDepth, alike.listDepth]

theorem allAskedAlike : ∀ {forms forms' : List Form}, List.Forall₂ (SameButGuarded limit) forms forms' →
    allHoles forms = allHoles forms' ∧ lastSized forms = lastSized forms' ∧
      lastSizedDepth forms = lastSizedDepth forms'
  | [], _, same => by
    cases same
    exact ⟨rfl, rfl, rfl⟩
  | [last], _, same => by
    cases same with
    | cons first rest =>
      cases rest
      have alike := first.askedAlike
      exact ⟨congrArg (· ++ []) alike.holes, by rw [lastSized, lastSized, alike.sized],
        by rw [lastSizedDepth, lastSizedDepth, alike.sizedDepth]⟩
  | head :: next :: rest, _, same => by
    cases same with
    | cons first others =>
      obtain ⟨holes', sized', depth⟩ := allAskedAlike others
      cases others with
      | cons _ _ => exact ⟨congrArg₂ (· ++ ·) first.askedAlike.holes holes', sized', depth⟩

end

variable {form form' : Form}

/-- What is projected out of a delayed type differs in nothing more than the delayed type. -/
theorem SameButGuarded.output? (same : form.SameButGuarded limit form') :
    Option.Rel (SameButGuarded limit) form.output? form'.output? := by
  cases same with
  | wrap wrapper same =>
    cases wrapper with
    | thunk => exact .some same
    | _ => exact .none
  | _ => exact .none

/-- What is projected out of a choice differs in nothing more than the choice. -/
theorem SameButGuarded.select? (same : form.SameButGuarded limit form') :
    Option.Rel (SameButGuarded limit) form.select? form'.select? := by
  cases same with
  | choice first second third =>
    cases first with
    | bool value =>
      rcases value with _ | _ | _
      · exact .none
      · rw [Form.select?, Form.select?, second.askedAlike.sized]
        split
        · exact third.output?
        · exact .none
      · rw [Form.select?, Form.select?, third.askedAlike.sized]
        split
        · exact second.output?
        · exact .none
    | _ => exact .none
  | _ => exact .none

theorem isSome_eq_of_rel {related : Form → Form → Prop} {result? result?' : Option Form}
    (same : Option.Rel related result? result?') : result?.isSome = result?'.isSome := by
  cases same <;> rfl

/-- Forms of which the same is asked fail to meet a requirement alike. -/
theorem SameButGuarded.unmet_eq (same : form.SameButGuarded limit form') (trait : Trait)
    (asked : trait.Asked) (bound : Nat) : form.unmet bound trait = form'.unmet bound trait := by
  have alike := same.askedAlike
  have both : form.proofDepth trait = form'.proofDepth trait ∧
      form.implements trait = form'.implements trait ∧ form.shortfall trait = form'.shortfall trait := by
    cases trait with
    | list kind =>
      exact ⟨alike.listDepth kind, by rw [implements, implements, alike.length?], rfl⟩
    | boolExpr => exact ⟨alike.formulaDepth, by rw [implements, implements, alike.formula?], rfl⟩
    | eval => exact ⟨rfl, isSome_eq_of_rel same.output?, rfl⟩
    | select => exact ⟨rfl, isSome_eq_of_rel same.select?, rfl⟩
    | sized => exact ⟨alike.sizedDepth, alike.sized, rfl⟩
    | auto _ => exact asked.elim
    | declared _ => exact asked.elim
  rw [unmet, unmet, settled, settled, alike.holes, both.1, both.2.1, both.2.2]

theorem flatMap_unmet_dropLast {forms forms' : List Form}
    (same : List.Forall₂ (SameButGuarded limit) forms forms') :
    forms.dropLast.flatMap (unmet limit .sized) = forms'.dropLast.flatMap (unmet limit .sized) := by
  induction same with
  | nil => rfl
  | cons first others ih =>
    cases others with
    | nil => rfl
    | cons _ _ =>
      rw [List.dropLast_cons_cons, List.dropLast_cons_cons, List.flatMap_cons, List.flatMap_cons, ih,
        first.unmet_eq .sized trivial]

/-- The formers of forms that differ in what guards accept break the same rules. -/
theorem SameButGuarded.malformed_eq (same : form.SameButGuarded limit form') :
    form.malformed limit = form'.malformed limit := by
  cases same with
  | guard accepts accepts' => exact accepts.met.trans accepts'.met.symm
  | wrap wrapper same =>
    cases wrapper <;>
      simp only [malformed, unguardable, same.unmet_eq .sized trivial, same.unmet_eq .boolExpr trivial]
  | cons _ second => exact second.unmet_eq (.list .types) trivial limit
  | boolCons _ same => exact same.unmet_eq (.list .bools) trivial limit
  | combine _ first second =>
    rw [malformed, malformed, first.unmet_eq .sized trivial, second.unmet_eq .sized trivial]
  | choice first second third =>
    rw [malformed, malformed, first.unmet_eq .sized trivial, second.unmet_eq .sized trivial,
      third.unmet_eq .sized trivial]
  | tuple same => exact flatMap_unmet_dropLast same
  | function _ _ => rfl
  | atom _ => rfl
  | bool _ => rfl
  | hole _ => rfl

end Form

namespace Scope

/-- Neither a former nor a rule of types tells apart what guards accept. -/
theorem respects_sameButGuarded {scope scope' : Scope} (limit : scope.limit = scope'.limit)
    (lifetime : scope.lifetime = scope'.lifetime) :
    scope.Respects (Form.SameButGuarded scope.limit) scope' where
  limit := limit
  atom leaf := .atom leaf
  wrap wrapper _ _ same := lifetime ▸ .wrap _ same
  cons first second := .cons first second
  combine combinator _ _ _ _ first second := .combine combinator first second
  choice first second third := .choice first second third
  tuple same := .tuple same
  function first second := .function first second
  bool value := .bool value
  boolCons value _ _ same := .boolCons value same
  lost := .hole .lost
  closed same := by rw [Form.closed, Form.closed, same.askedAlike.holes]
  settled same := by rw [Form.settled, Form.settled, same.askedAlike.holes]
  malformed same := limit ▸ same.malformed_eq
  unmet trait asked _ _ same := limit ▸ same.unmet_eq trait asked scope.limit
  value same := by rw [Form.value, Form.value, same.askedAlike.formula?]
  length kind _ _ same := by rw [Form.length, Form.length, same.askedAlike.length?]
  output same := same.output?
  select same := same.select?

end Scope

end TypeLists
