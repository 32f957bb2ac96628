import TypeLists.Form.Variance
import TypeLists.Proofs.Normalization.Alike
import TypeLists.Proofs.Normalization.Reduction

/-! Lifetimes in forms: no rule of a type looks at how long references live, so that types are read alike
wherever they stand, but for the lifetimes of their references. -/

namespace TypeLists

mutual

/-- The form with all references living equally long. -/
def Form.living (lifetime : Lifetime) : Form → Form
  | .atom leaf => .atom leaf
  | .wrap wrapper inner => .wrap (wrapper.living lifetime) (inner.living lifetime)
  | .cons head tail => .cons (head.living lifetime) (tail.living lifetime)
  | .combine combinator left right =>
    .combine combinator (left.living lifetime) (right.living lifetime)
  | .choice condition positive negative =>
    .choice (condition.living lifetime) (positive.living lifetime) (negative.living lifetime)
  | .tuple members => .tuple (Form.allLiving lifetime members)
  | .function arguments result => .function (Form.allLiving lifetime arguments) (result.living lifetime)
  | .bool value => .bool value
  | .boolCons value tail => .boolCons value (tail.living lifetime)
  | .hole cause => .hole cause

/-- Some forms with all references living equally long. -/
def Form.allLiving (lifetime : Lifetime) : List Form → List Form
  | [] => []
  | head :: rest => head.living lifetime :: Form.allLiving lifetime rest

end

namespace Form

variable (lifetime : Lifetime)

theorem allLiving_eq (forms : List Form) : allLiving lifetime forms = forms.map (living lifetime) := by
  induction forms with
  | nil => rfl
  | cons head rest ih => rw [allLiving, ih, List.map_cons]

mutual

@[simp] theorem holes_living : ∀ form : Form, (form.living lifetime).holes = form.holes
  | .atom _ | .bool _ | .hole _ => rfl
  | .wrap _ inner => by rw [living, holes, holes, holes_living inner]
  | .cons head tail => by rw [living, holes, holes, holes_living head, holes_living tail]
  | .combine _ left right => by rw [living, holes, holes, holes_living left, holes_living right]
  | .choice condition positive negative => by
    rw [living, holes, holes, holes_living condition, holes_living positive, holes_living negative]
  | .tuple members => by rw [living, holes, holes, allHoles_living members]
  | .function arguments result => by
    rw [living, holes, holes, allHoles_living arguments, holes_living result]
  | .boolCons _ tail => by rw [living, holes, holes, holes_living tail]

@[simp] theorem allHoles_living : ∀ forms : List Form,
    allHoles (allLiving lifetime forms) = allHoles forms
  | [] => rfl
  | head :: rest => by rw [allLiving, allHoles, allHoles, holes_living head, allHoles_living rest]

end

mutual

@[simp] theorem sized_living : ∀ form : Form, (form.living lifetime).sized = form.sized
  | .atom _ | .cons _ _ | .combine _ _ _ | .choice _ _ _ | .function _ _ | .bool _ | .boolCons _ _
  | .hole _ => rfl
  | .wrap wrapper inner => by
    rw [living, sized, sized, sized_living inner]
    cases wrapper <;> rfl
  | .tuple members => by rw [living, sized, sized, lastSized_living members]

@[simp] theorem lastSized_living : ∀ forms : List Form,
    lastSized (allLiving lifetime forms) = lastSized forms
  | [] => rfl
  | [last] => by rw [allLiving, allLiving, lastSized, lastSized, sized_living last]
  | _ :: next :: rest => lastSized_living (next :: rest)

end

mutual

@[simp] theorem sizedDepth_living : ∀ form : Form, (form.living lifetime).sizedDepth = form.sizedDepth
  | .atom _ | .cons _ _ | .combine _ _ _ | .choice _ _ _ | .function _ _ | .bool _ | .boolCons _ _
  | .hole _ => rfl
  | .wrap wrapper inner => by
    rw [living]
    -- Among the formers with one parameter, only a cell hands the question on.
    cases wrapper with
    | cell =>
      rw [Wrapper.living, sizedDepth, sizedDepth, sized_living, sizedDepth_living inner]
      all_goals exact nofun
    | _ => rfl
  | .tuple members => by
    rw [living, sizedDepth, sizedDepth, lastSized_living, lastSizedDepth_living members]

@[simp] theorem lastSizedDepth_living : ∀ forms : List Form,
    lastSizedDepth (allLiving lifetime forms) = lastSizedDepth forms
  | [] => rfl
  | [last] => by rw [allLiving, allLiving, lastSizedDepth, lastSizedDepth, sizedDepth_living last]
  | _ :: next :: rest => lastSizedDepth_living (next :: rest)

end

@[simp] theorem length?_living (kind : ListKind) : ∀ form : Form,
    (form.living lifetime).length? kind = form.length? kind
  -- Heads play no part, and tails are lists of the same length.
  | .cons _ tail => by
    cases kind with
    | types => rw [living, length?, length?, length?_living .types tail]
    | bools => rfl
  | .boolCons _ tail => by
    cases kind with
    | types => rfl
    | bools => rw [living, length?, length?, length?_living .bools tail]
  | .atom _ | .wrap _ _ | .combine _ _ _ | .choice _ _ _ | .tuple _ | .function _ _ | .bool _
  | .hole _ => by cases kind <;> rfl

@[simp] theorem listDepth_living (kind : ListKind) : ∀ form : Form,
    (form.living lifetime).listDepth kind = form.listDepth kind
  | .cons _ tail => by
    cases kind with
    | types => rw [living, listDepth, listDepth, listDepth_living .types tail]
    | bools => rfl
  | .boolCons _ tail => by
    cases kind with
    | types => rfl
    | bools => rw [living, listDepth, listDepth, listDepth_living .bools tail]
  | .atom _ | .wrap _ _ | .combine _ _ _ | .choice _ _ _ | .tuple _ | .function _ _ | .bool _
  | .hole _ => by cases kind <;> rfl

@[simp] theorem formula?_living : ∀ form : Form, (form.living lifetime).formula? = form.formula?
  | .wrap wrapper inner => by
    cases wrapper with
    | not => simp only [living, Wrapper.living, formula?, formula?_living inner]
    | force => simp only [living, Wrapper.living, formula?, formula?_living inner]
    | _ => rfl
  | .combine .or (.bool (some false)) right => by
    simp only [living, formula?, formula?_living right]
  | .combine .or (.bool (some true)) _ | .combine .or (.bool none) _ => rfl
  | .combine .or (.atom _) _ | .combine .or (.wrap _ _) _ | .combine .or (.cons _ _) _
  | .combine .or (.combine _ _ _) _ | .combine .or (.choice _ _ _) _ | .combine .or (.tuple _) _
  | .combine .or (.function _ _) _ | .combine .or (.boolCons _ _) _ | .combine .or (.hole _) _ => rfl
  | .combine .and left right => by
    simp only [living, formula?, formula?_living left, formula?_living right]
  | .combine .shorter left right => by simp only [living, formula?, length?_living]
  | .atom _ | .cons _ _ | .choice _ _ _ | .tuple _ | .function _ _ | .bool _ | .boolCons _ _
  | .hole _ => rfl

@[simp] theorem formulaDepth_living : ∀ form : Form,
    (form.living lifetime).formulaDepth = form.formulaDepth
  | .wrap wrapper inner => by
    cases wrapper with
    | not => simp only [living, Wrapper.living, formulaDepth, formulaDepth_living inner]
    | force => simp only [living, Wrapper.living, formulaDepth, formulaDepth_living inner]
    | _ => rfl
  | .combine .or (.bool (some false)) right => by
    simp only [living, formulaDepth, formulaDepth_living right]
  | .combine .or (.bool (some true)) _ | .combine .or (.bool none) _ => rfl
  | .combine .or (.atom _) _ | .combine .or (.wrap _ _) _ | .combine .or (.cons _ _) _
  | .combine .or (.combine _ _ _) _ | .combine .or (.choice _ _ _) _ | .combine .or (.tuple _) _
  | .combine .or (.function _ _) _ | .combine .or (.boolCons _ _) _ | .combine .or (.hole _) _ => rfl
  | .combine .and left right => by
    simp only [living, formulaDepth, formulaDepth_living left, formulaDepth_living right]
  | .combine .shorter left right => by simp only [living, formulaDepth, listDepth_living]
  | .atom _ | .cons _ _ | .choice _ _ _ | .tuple _ | .function _ _ | .bool _ | .boolCons _ _
  | .hole _ => rfl

theorem output?_living (form : Form) :
    (form.living lifetime).output? = form.output?.map (living lifetime) := by
  cases form with
  | wrap wrapper inner => cases wrapper <;> rfl
  | _ => rfl

/-- A choice is decided alike, and gives back the same but for the lifetimes. -/
theorem select?_living (form : Form) :
    (form.living lifetime).select? = form.select?.map (living lifetime) := by
  cases form with
  | choice condition positive negative =>
    cases condition with
    | bool value =>
      cases value with
      | none => rfl
      | some value =>
        cases value with
        | true =>
          simp only [living, select?, sized_living, output?_living]
          split <;> rfl
        | false =>
          simp only [living, select?, sized_living, output?_living]
          split <;> rfl
    | _ => rfl
  | _ => rfl

@[simp] theorem closed_living (form : Form) : (form.living lifetime).closed = form.closed := by
  rw [closed, closed, holes_living]

@[simp] theorem settled_living (form : Form) : (form.living lifetime).settled = form.settled := by
  rw [settled, settled, holes_living]

/-- What types ask of their parts does not depend on lifetimes. -/
theorem unmet_living (limit : Nat) (trait : Trait) (asked : trait.Asked) (form : Form) :
    (form.living lifetime).unmet limit trait = form.unmet limit trait := by
  have implements : (form.living lifetime).implements trait = form.implements trait := by
    cases trait with
    | list kind => exact congrArg Option.isSome (length?_living lifetime kind form)
    | boolExpr => exact congrArg Option.isSome (formula?_living lifetime form)
    | eval =>
      show (form.living lifetime).output?.isSome = form.output?.isSome
      rw [output?_living, Option.isSome_map]
    | select =>
      show (form.living lifetime).select?.isSome = form.select?.isSome
      rw [select?_living, Option.isSome_map]
    | sized => exact sized_living lifetime form
    | auto _ => cases asked
    | declared _ => cases asked
  have depth : (form.living lifetime).proofDepth trait = form.proofDepth trait := by
    cases trait with
    | list kind => exact listDepth_living lifetime kind form
    | boolExpr => exact formulaDepth_living lifetime form
    | eval => rfl
    | select => rfl
    | sized => exact sizedDepth_living lifetime form
    | auto _ => cases asked
    | declared _ => cases asked
  have shortfall : (form.living lifetime).shortfall trait = form.shortfall trait := by
    cases trait with
    | declared _ => cases asked
    | _ => rfl
  rw [unmet, unmet, settled_living, implements, depth, shortfall]

/-- The rules of formers do not look at lifetimes. -/
theorem malformed_living (limit : Nat) (form : Form) :
    (form.living lifetime).malformed limit = form.malformed limit := by
  have sized (part : Form) : (part.living lifetime).unmet limit .sized = part.unmet limit .sized :=
    part.unmet_living lifetime limit .sized trivial
  have list (kind : ListKind) (part : Form) :
      (part.living lifetime).unmet limit (.list kind) = part.unmet limit (.list kind) :=
    part.unmet_living lifetime limit (.list kind) trivial
  have boolExpr (part : Form) :
      (part.living lifetime).unmet limit .boolExpr = part.unmet limit .boolExpr :=
    part.unmet_living lifetime limit .boolExpr trivial
  cases form with
  | wrap wrapper inner =>
    cases wrapper with
    | boolGuard => simp only [living, Wrapper.living, malformed, unguardable, sized, boolExpr]
    | _ => simp [living, Wrapper.living, malformed, Wrapper.needsSized, sized]
  | cons head tail => simp only [living, malformed, list]
  | boolCons value tail => simp only [living, malformed, list]
  | combine combinator left right => simp only [living, malformed, sized]
  | choice condition positive negative => simp only [living, malformed, sized]
  | tuple members =>
    simp only [living, malformed, allLiving_eq, ← List.map_dropLast, List.flatMap_map, sized]
  | _ => rfl

mutual

/-- A form breaks the same rules however long its references live. -/
theorem malformations_living (limit : Nat) : ∀ form : Form,
    (form.living lifetime).malformations limit = form.malformations limit
  -- Every former is held against its own rules, which do not look at lifetimes.
  | .atom _ | .bool _ | .hole _ => rfl
  | .wrap wrapper inner => by
    have whole := (wrap wrapper inner).malformed_living lifetime limit
    rw [living] at whole ⊢
    rw [malformations, malformations, inner.malformations_living limit, whole]
  | .cons head tail => by
    have whole := (cons head tail).malformed_living lifetime limit
    rw [living] at whole ⊢
    rw [malformations, malformations, head.malformations_living limit, tail.malformations_living limit,
      whole]
  | .combine combinator left right => by
    have whole := (combine combinator left right).malformed_living lifetime limit
    rw [living] at whole ⊢
    rw [malformations, malformations, left.malformations_living limit, right.malformations_living limit,
      whole]
  | .choice condition positive negative => by
    have whole := (choice condition positive negative).malformed_living lifetime limit
    rw [living] at whole ⊢
    rw [malformations, malformations, condition.malformations_living limit,
      positive.malformations_living limit, negative.malformations_living limit, whole]
  | .tuple members => by
    have whole := (tuple members).malformed_living lifetime limit
    rw [living] at whole ⊢
    rw [malformations, malformations, allMalformations_living limit members, whole]
  | .function arguments result => by
    rw [living, malformations, malformations, allMalformations_living limit arguments,
      result.malformations_living limit]
  | .boolCons value tail => by
    have whole := (boolCons value tail).malformed_living lifetime limit
    rw [living] at whole ⊢
    rw [malformations, malformations, tail.malformations_living limit, whole]

theorem allMalformations_living (limit : Nat) : ∀ forms : List Form,
    allMalformations limit (allLiving lifetime forms) = allMalformations limit forms
  | [] => rfl
  | head :: rest => by
    rw [allLiving, allMalformations, allMalformations, head.malformations_living limit,
      allMalformations_living limit rest]

end

mutual

/-- Lifetimes that can change still can where all lifetimes can. -/
theorem mem_lifetimes_living {variance : Variance} : ∀ (form : Form) (place : Variance),
    variance ∈ form.lifetimes place → variance ∈ (form.living .varying).lifetimes place
  | .atom _, _, member | .bool _, _, member | .hole _, _, member => member
  | .wrap wrapper inner, place, member => by
    have varies : wrapper.varies → (wrapper.living .varying).varies := by
      cases wrapper <;> first | exact id | exact fun _ => rfl
    have mutable : (wrapper.living .varying).mutable = wrapper.mutable := by cases wrapper <;> rfl
    rw [living, lifetimes, mutable]
    rcases List.mem_append.mp member with own | inside
    · refine List.mem_append_left _ ?_
      split at own
      · rename_i change
        rwa [if_pos (varies change)]
      · cases own
    · exact List.mem_append_right _ (inner.mem_lifetimes_living _ inside)
  | .cons head tail, place, member =>
    List.mem_append.mpr ((List.mem_append.mp member).imp (head.mem_lifetimes_living place)
      (tail.mem_lifetimes_living place))
  | .combine _ left right, place, member =>
    List.mem_append.mpr ((List.mem_append.mp member).imp (left.mem_lifetimes_living place)
      (right.mem_lifetimes_living place))
  | .choice condition positive negative, place, member => by
    rw [lifetimes, List.mem_append, List.mem_append] at member
    rw [living, lifetimes, List.mem_append, List.mem_append]
    exact member.imp (Or.imp (condition.mem_lifetimes_living place) (positive.mem_lifetimes_living place))
      (negative.mem_lifetimes_living place)
  | .tuple members, place, member => mem_allLifetimes_living members place member
  | .function arguments result, place, member =>
    List.mem_append.mpr ((List.mem_append.mp member).imp (mem_allLifetimes_living arguments place.flip)
      (result.mem_lifetimes_living place))
  | .boolCons _ tail, place, member => tail.mem_lifetimes_living place member

theorem mem_allLifetimes_living {variance : Variance} : ∀ (forms : List Form) (place : Variance),
    variance ∈ allLifetimes place forms → variance ∈ allLifetimes place (allLiving .varying forms)
  | [], _, member => member
  | head :: rest, place, member =>
    List.mem_append.mpr ((List.mem_append.mp member).imp (head.mem_lifetimes_living place)
      (mem_allLifetimes_living rest place))

end

/-- A form whose lifetimes can change adapts no better than one whose lifetimes are fixed in part. -/
theorem adapts_of_living {direction : Direction} {form : Form}
    (adapts : (form.living .varying).adapts direction) : form.adapts direction := by
  rw [Form.adapts, List.all_eq_true] at adapts ⊢
  exact fun variance member => adapts variance (form.mem_lifetimes_living .covariant member)

/-- The forms are the same but for the lifetimes of their references. -/
def SameButLifetimes (form form' : Form) : Prop :=
  form.living .static = form'.living .static

/-- Forms that live equally long are the same if they are the same but for their lifetimes. -/
theorem allLiving_eq_of_forall₂ {forms forms' : List Form}
    (same : List.Forall₂ SameButLifetimes forms forms') :
    allLiving .static forms = allLiving .static forms' := by
  induction same with
  | nil => rfl
  | cons first _ ih => rw [allLiving, allLiving, first, ih]

theorem allLiving_of_forall₂ {forms forms' : List Form}
    (same : List.Forall₂ (fun form form' => form.living lifetime = form') forms forms') :
    allLiving lifetime forms = forms' := by
  rw [allLiving_eq, ← List.forall₂_eq_eq_eq, List.forall₂_map_left_iff]
  exact same

/-- What is projected out of forms that are the same but for lifetimes is so as well. -/
theorem rel_of_map_living {result? result?' : Option Form}
    (same : result?.map (living .static) = result?'.map (living .static)) :
    Option.Rel SameButLifetimes result? result?' := by
  cases result? with
  | none =>
    cases result?' with
    | none => exact .none
    | some _ => cases same
  | some _ =>
    cases result?' with
    | none => cases same
    | some _ => exact .some (Option.some.inj same)

end Form

namespace Scope

/-- How long references live where a type stands plays no part in what is found in the type. -/
theorem respects_sameButLifetimes {scope scope' : Scope} (limit : scope.limit = scope'.limit) :
    scope.Respects Form.SameButLifetimes scope' where
  limit := limit
  atom _ := rfl
  wrap wrapper _ _ same := by
    rw [Form.SameButLifetimes, Form.living, Form.living, same]
    cases wrapper <;> rfl
  cons first second := by rw [Form.SameButLifetimes, Form.living, Form.living, first, second]
  combine _ _ _ _ _ first second := by
    rw [Form.SameButLifetimes, Form.living, Form.living, first, second]
  choice first second third := by
    rw [Form.SameButLifetimes, Form.living, Form.living, first, second, third]
  tuple same := by
    rw [Form.SameButLifetimes, Form.living, Form.living, Form.allLiving_eq_of_forall₂ same]
  function first second := by
    rw [Form.SameButLifetimes, Form.living, Form.living, Form.allLiving_eq_of_forall₂ first, second]
  bool _ := rfl
  boolCons _ _ _ same := by rw [Form.SameButLifetimes, Form.living, Form.living, same]
  lost := rfl
  closed same := by rw [← Form.closed_living .static, same, Form.closed_living]
  settled same := by rw [← Form.settled_living .static, same, Form.settled_living]
  malformed same := by
    rw [← Form.malformed_living .static, same, Form.malformed_living, limit]
  unmet trait asked _ _ same := by
    rw [← Form.unmet_living .static _ trait asked, same, Form.unmet_living .static _ trait asked, limit]
  value same := by
    rw [Form.value, ← Form.formula?_living .static, same, Form.formula?_living, Form.value]
  length kind _ _ same := by
    rw [Form.length, ← Form.length?_living .static, same, Form.length?_living, Form.length]
  output same := Form.rel_of_map_living (by
    rw [← Form.output?_living, same, Form.output?_living])
  select same := Form.rel_of_map_living (by
    rw [← Form.select?_living, same, Form.select?_living])

/-- Where references live as long as their place demands, types are as elsewhere with all lifetimes changed. -/
theorem respects_living {scope scope' : Scope} (limit : scope.limit = scope'.limit)
    (lifetime : scope'.lifetime = .varying) :
    scope.Respects (fun form form' => form.living .varying = form') scope' where
  limit := limit
  atom _ := rfl
  wrap wrapper _ _ same := by
    rw [Form.living, same, lifetime]
    cases wrapper <;> rfl
  cons first second := by rw [Form.living, first, second]
  combine _ _ _ _ _ first second := by rw [Form.living, first, second]
  choice first second third := by rw [Form.living, first, second, third]
  tuple same := by rw [Form.living, Form.allLiving_of_forall₂ _ same]
  function first second := by rw [Form.living, Form.allLiving_of_forall₂ _ first, second]
  bool _ := rfl
  boolCons _ _ _ same := by rw [Form.living, same]
  lost := rfl
  closed same := by rw [← same, Form.closed_living]
  settled same := by rw [← same, Form.settled_living]
  malformed same := by rw [← same, Form.malformed_living, limit]
  unmet trait asked _ _ same := by rw [← same, Form.unmet_living _ _ trait asked, limit]
  value same := by rw [← same, Form.value, Form.value, Form.formula?_living]
  length kind _ _ same := by rw [← same, Form.length, Form.length, Form.length?_living]
  output same := by
    rw [← same, Form.output?_living]
    cases Form.output? _ with
    | none => exact .none
    | some _ => exact .some rfl
  select same := by
    rw [← same, Form.select?_living]
    cases Form.select? _ with
    | none => exact .none
    | some _ => exact .some rfl

end Scope

/-- A type whose references live as long as its place demands is the same but for their lifetimes. -/
theorem Ty.normalize_varying (scope : Scope) (type : Ty) :
    Checked.Alike Form.SameButLifetimes (type.normalize scope) (type.normalize scope.varying) := by
  have respects : scope.Respects Form.SameButLifetimes scope.varying :=
    Scope.respects_sameButLifetimes rfl
  exact type.normalize_alike respects fun name use _ => respects.agrees ⟨rfl, rfl⟩ use

end TypeLists
