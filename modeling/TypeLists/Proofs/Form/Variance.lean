import TypeLists.Proofs.Form.Fields
import TypeLists.Proofs.Form.Written

/-! Lifetimes and subtypes: counting where the references of a form stand decides whether the form is a subtype
of itself with all references living longer or shorter. -/

namespace TypeLists

/-- A reference that lives so long can stand for one that lives as long as the other. -/
def Lifetime.Outlives (lifetime lifetime' : Lifetime) : Prop :=
  lifetime = .static ∨ lifetime' = .varying

/-- The former only gives its parameter back, so that a subtype of the parameter makes a subtype. -/
def Wrapper.Holds : Wrapper → Prop
  -- Guards carry their parameters as results of functions, and list nodes do so as well.
  | ptr | slice | array _ | phantom | option | boolGuard | typeGuard | not | force | thunk => True
  | ref _ | refMut _ | ptrMut | cell => False

/-- The former lets its parameter be replaced, and has no lifetime of its own. -/
def Wrapper.Replaces : Wrapper → Prop
  | ptrMut | cell => True
  | _ => False

/-- No former both gives its parameter back alone and lets it be replaced. -/
theorem Wrapper.Replaces.not_holds {wrapper : Wrapper} (replaces : wrapper.Replaces) :
    ¬ wrapper.Holds := by
  cases wrapper <;> first | exact id | exact False.elim replaces

/-- Forms that differ in lifetimes alone, the first of which can be used as the second. -/
inductive Form.SubtypeOf : Form → Form → Prop where
  | atom (leaf : Atom) : SubtypeOf (.atom leaf) (.atom leaf)
  | bool (value : Option Bool) : SubtypeOf (.bool value) (.bool value)
  | hole (cause : Hole) : SubtypeOf (.hole cause) (.hole cause)
  | ref {lifetime lifetime' : Lifetime} {inner inner' : Form}
      (outlives : lifetime.Outlives lifetime') (below : SubtypeOf inner inner') :
      SubtypeOf (.wrap (.ref lifetime) inner) (.wrap (.ref lifetime') inner')
  /-- What an exclusive reference leads to can be replaced, and must stay of the same type. -/
  | refMut {lifetime lifetime' : Lifetime} (outlives : lifetime.Outlives lifetime') (inner : Form) :
      SubtypeOf (.wrap (.refMut lifetime) inner) (.wrap (.refMut lifetime') inner)
  | replaces {wrapper : Wrapper} (replaces : wrapper.Replaces) (inner : Form) :
    SubtypeOf (.wrap wrapper inner) (.wrap wrapper inner)
  | holds {wrapper : Wrapper} {inner inner' : Form} (holds : wrapper.Holds)
      (below : SubtypeOf inner inner') : SubtypeOf (.wrap wrapper inner) (.wrap wrapper inner')
  | cons {head head' tail tail' : Form} (first : SubtypeOf head head')
      (second : SubtypeOf tail tail') : SubtypeOf (.cons head tail) (.cons head' tail')
  | combine {combinator : Combinator} {left left' right right' : Form}
      (first : SubtypeOf left left') (second : SubtypeOf right right') :
      SubtypeOf (.combine combinator left right) (.combine combinator left' right')
  | choice {condition condition' positive positive' negative negative' : Form}
      (first : SubtypeOf condition condition') (second : SubtypeOf positive positive')
      (third : SubtypeOf negative negative') :
      SubtypeOf (.choice condition positive negative) (.choice condition' positive' negative')
  | tuple {members members' : List Form} (below : List.Forall₂ SubtypeOf members members') :
      SubtypeOf (.tuple members) (.tuple members')
  /-- A function can be used with arguments that can be used as its own. -/
  | function {arguments arguments' : List Form} {result result' : Form}
      (above : List.Forall₂ SubtypeOf arguments' arguments) (below : SubtypeOf result result') :
      SubtypeOf (.function arguments result) (.function arguments' result')
  | boolCons {value : Option Bool} {tail tail' : Form} (below : SubtypeOf tail tail') :
      SubtypeOf (.boolCons value tail) (.boolCons value tail')

/-- The other way to change all lifetimes, which a function asks of its arguments. -/
def Direction.opposite : Direction → Direction
  | shorten => lengthen
  | lengthen => shorten

/-- The change leads from one of two forms to the other, the first of which lives longer. -/
def Direction.Allows (longer shorter : Form) : Direction → Prop
  | shorten => longer.SubtypeOf shorter
  | lengthen => shorter.SubtypeOf longer

/-- The variance of a place within something that stands at a place of its own. -/
def Variance.within : Variance → Variance → Variance
  -- Nothing can change in a place that cannot.
  | covariant, inner => inner
  | contravariant, inner => inner.flip
  | invariant, _ => invariant

theorem Variance.within_flip (place inner : Variance) :
    place.flip.within inner = place.within inner.flip := by
  cases place <;> cases inner <;> rfl

theorem Variance.within_invariant (place : Variance) : place.within .invariant = .invariant := by
  cases place <;> rfl

theorem Variance.within_covariant (place : Variance) : place.within .covariant = place := by
  cases place <;> rfl

namespace Form

theorem allLifetimes_eq (place : Variance) (forms : List Form) :
    allLifetimes place forms = forms.flatMap (lifetimes place) := by
  induction forms with
  | nil => rfl
  | cons head rest ih => rw [allLifetimes, ih, List.flatMap_cons]

mutual

/-- The references in a form are the same at every place, and the place changes their variances. -/
theorem lifetimes_eq_map : ∀ (form : Form) (place : Variance),
    form.lifetimes place = (form.lifetimes .covariant).map place.within
  -- All formers but two hand their place on as it is, to each of their parts.
  | .atom _, _ | .bool _, _ | .hole _, _ => rfl
  | .wrap wrapper inner, place => by
    -- The place of the parameter is either the place of the form or one that cannot change.
    have own : (if wrapper.varies then [place] else []) =
        (if wrapper.varies then [Variance.covariant] else []).map place.within := by
      split
      · rw [List.map_singleton, place.within_covariant]
      · rfl
    rw [lifetimes, lifetimes, List.map_append, ← own]
    cases wrapper.mutable with
    | true =>
      have fixed := inner.lifetimes_eq_map .invariant
      simp only [if_true, fixed, List.map_map]
      exact congrArg _ (List.map_congr_left fun _ _ => place.within_invariant.symm)
    | false => exact congrArg _ (inner.lifetimes_eq_map place)
  | .cons head tail, place => by
    rw [lifetimes, lifetimes, List.map_append, head.lifetimes_eq_map place,
      tail.lifetimes_eq_map place]
  | .combine _ left right, place => by
    rw [lifetimes, lifetimes, List.map_append, left.lifetimes_eq_map place,
      right.lifetimes_eq_map place]
  | .choice condition positive negative, place => by
    rw [lifetimes, lifetimes, List.map_append, List.map_append, condition.lifetimes_eq_map place,
      positive.lifetimes_eq_map place, negative.lifetimes_eq_map place]
  | .tuple members, place => allLifetimes_eq_map members place
  | .function arguments result, place => by
    -- Both sides see the arguments from the other side, one of them before and one after the place.
    rw [lifetimes, lifetimes, List.map_append, allLifetimes_eq_map arguments place.flip,
      allLifetimes_eq_map arguments Variance.covariant.flip, result.lifetimes_eq_map place,
      List.map_map]
    refine congrArg (· ++ _) (List.map_congr_left fun inner _ => ?_)
    exact place.within_flip inner
  | .boolCons _ tail, place => tail.lifetimes_eq_map place

theorem allLifetimes_eq_map : ∀ (forms : List Form) (place : Variance),
    allLifetimes place forms = (allLifetimes .covariant forms).map place.within
  | [], _ => rfl
  | head :: rest, place => by
    rw [allLifetimes, allLifetimes, List.map_append, head.lifetimes_eq_map place,
      allLifetimes_eq_map rest place]

end

mutual

/-- No reference in a form can change exactly if fixing all of them leaves the form as it is. -/
theorem lifetimes_eq_nil_iff : ∀ (form : Form) (place : Variance),
    form.lifetimes place = [] ↔ form.living .static = form
  -- Where a reference stands plays no part, only whether it can change at all.
  | .atom _, _ | .bool _, _ | .hole _, _ => by simp [lifetimes, living]
  | .wrap wrapper inner, place => by
    have own : wrapper.varies = false ↔ wrapper.living .static = wrapper := by
      cases wrapper with
      | ref lifetime => cases lifetime <;> decide
      | refMut lifetime => cases lifetime <;> decide
      | _ => exact iff_of_true rfl rfl
    simp [lifetimes, living, lifetimes_eq_nil_iff inner, own]
  | .cons head tail, place => by
    simp [lifetimes, living, lifetimes_eq_nil_iff head, lifetimes_eq_nil_iff tail]
  | .combine _ left right, place => by
    simp [lifetimes, living, lifetimes_eq_nil_iff left, lifetimes_eq_nil_iff right]
  | .choice condition positive negative, place => by
    simp [lifetimes, living, lifetimes_eq_nil_iff condition, lifetimes_eq_nil_iff positive,
      lifetimes_eq_nil_iff negative]
  | .tuple members, place => by simp [lifetimes, living, allLifetimes_eq_nil_iff members]
  | .function arguments result, place => by
    simp [lifetimes, living, allLifetimes_eq_nil_iff arguments, lifetimes_eq_nil_iff result]
  | .boolCons _ tail, place => by simp [lifetimes, living, lifetimes_eq_nil_iff tail]

theorem allLifetimes_eq_nil_iff : ∀ (forms : List Form) (place : Variance),
    allLifetimes place forms = [] ↔ allLiving .static forms = forms
  | [], _ => by simp [allLifetimes, allLiving]
  | head :: rest, place => by
    simp [allLifetimes, allLiving, lifetimes_eq_nil_iff head, allLifetimes_eq_nil_iff rest]

end

section Adapts

variable {direction : Direction} {head tail : Form}

theorem adapts_iff_mem : head.adapts direction ↔
    ∀ variance ∈ head.lifetimes .covariant, variance = direction.needed := by
  simp [adapts]

theorem adapts_cons_iff :
    (cons head tail).adapts direction ↔ head.adapts direction ∧ tail.adapts direction := by
  simp [adapts, lifetimes, List.all_append]

theorem adapts_combine_iff {combinator : Combinator} :
    (combine combinator head tail).adapts direction ↔ head.adapts direction ∧ tail.adapts direction := by
  simp [adapts, lifetimes, List.all_append]

theorem adapts_choice_iff {condition : Form} :
    (choice condition head tail).adapts direction ↔
      condition.adapts direction ∧ head.adapts direction ∧ tail.adapts direction := by
  simp [adapts, lifetimes, List.all_append]

theorem adapts_boolCons_iff {value : Option Bool} :
    (boolCons value tail).adapts direction ↔ tail.adapts direction := Iff.rfl

theorem adapts_tuple_iff {members : List Form} :
    (tuple members).adapts direction ↔ ∀ member ∈ members, member.adapts direction := by
  -- The references of a tuple are those of its members.
  simp only [adapts_iff_mem, lifetimes, allLifetimes_eq, List.mem_flatMap]
  exact ⟨fun whole member inside variance found => whole variance ⟨member, inside, found⟩,
    fun each variance ⟨member, inside, found⟩ => each member inside variance found⟩

/-- A function adapts as its result does and against its arguments. -/
theorem adapts_function_iff {arguments : List Form} {result : Form} :
    (function arguments result).adapts direction ↔
      (∀ argument ∈ arguments, argument.adapts direction.opposite) ∧ result.adapts direction := by
  -- A variance seen through an argument is the needed one if it is the other one there.
  have seen (variance : Variance) :
      variance.flip = direction.needed ↔ variance = direction.opposite.needed := by
    cases variance <;> cases direction <;> decide
  have arguments_iff : (∀ variance ∈ allLifetimes .contravariant arguments,
      variance = direction.needed) ↔ ∀ argument ∈ arguments, argument.adapts direction.opposite := by
    rw [allLifetimes_eq_map, List.forall_mem_map]
    simp only [Variance.within, seen]
    exact adapts_iff_mem.symm.trans adapts_tuple_iff
  rw [adapts_iff_mem, lifetimes, List.forall_mem_append, Variance.flip, arguments_iff,
    ← adapts_iff_mem]

/-- A former adapts by its own lifetime and by its parameter, which stays as it is if it can be replaced. -/
theorem adapts_wrap_iff {wrapper : Wrapper} {inner : Form} :
    (wrap wrapper inner).adapts direction ↔ (wrapper.varies → direction = .shorten) ∧
      if wrapper.mutable then inner.living .static = inner else inner.adapts direction := by
  have own : (∀ variance ∈ if wrapper.varies then [Variance.covariant] else [],
      variance = direction.needed) ↔ (wrapper.varies → direction = .shorten) := by
    cases wrapper.varies <;> cases direction <;> simp [Direction.needed]
  rw [adapts_iff_mem, lifetimes, List.forall_mem_append, own]
  refine and_congr_right fun _ => ?_
  cases wrapper.mutable with
  | true =>
    -- No direction of change needs a place that cannot change.
    have never : Variance.invariant ≠ direction.needed := by cases direction <;> decide
    rw [if_pos rfl, if_pos rfl, lifetimes_eq_map, List.forall_mem_map,
      ← lifetimes_eq_nil_iff inner .covariant, List.eq_nil_iff_forall_not_mem]
    exact forall₂_congr fun _ _ => iff_of_false never id
  | false => exact adapts_iff_mem.symm

end Adapts

section Inversion

variable {inner inner' : Form}

theorem subtypeOf_ref_iff {lifetime lifetime' : Lifetime} :
    (wrap (.ref lifetime) inner).SubtypeOf (wrap (.ref lifetime') inner') ↔
      lifetime.Outlives lifetime' ∧ inner.SubtypeOf inner' := by
  constructor
  · intro below
    cases below with
    | ref outlives below => exact ⟨outlives, below⟩
    | replaces replaces _ => cases replaces
    | holds holds _ => cases holds
  · exact fun both => .ref both.1 both.2

theorem subtypeOf_refMut_iff {lifetime lifetime' : Lifetime} :
    (wrap (.refMut lifetime) inner).SubtypeOf (wrap (.refMut lifetime') inner') ↔
      lifetime.Outlives lifetime' ∧ inner = inner' := by
  constructor
  · intro below
    cases below with
    | refMut outlives _ => exact ⟨outlives, rfl⟩
    | replaces replaces _ => cases replaces
    | holds holds _ => cases holds
  · rintro ⟨outlives, rfl⟩
    exact .refMut outlives inner

theorem subtypeOf_replaces_iff {wrapper : Wrapper} (replaces : wrapper.Replaces) :
    (wrap wrapper inner).SubtypeOf (wrap wrapper inner') ↔ inner = inner' := by
  constructor
  · intro below
    -- The other rules for formers with one parameter are about references and about mere holders.
    cases below with
    | replaces _ _ => rfl
    | ref _ _ => cases replaces
    | refMut _ _ => cases replaces
    | holds holds _ => exact absurd holds replaces.not_holds
  · rintro rfl
    exact .replaces replaces inner

theorem subtypeOf_holds_iff {wrapper : Wrapper} (holds : wrapper.Holds) :
    (wrap wrapper inner).SubtypeOf (wrap wrapper inner') ↔ inner.SubtypeOf inner' := by
  constructor
  · intro below
    cases below with
    | holds _ below => exact below
    | ref _ _ => cases holds
    | refMut _ _ => cases holds
    | replaces replaces _ => exact absurd holds replaces.not_holds
  · exact .holds holds

end Inversion

section Allows

variable {direction : Direction}

theorem allows_cons_iff {head head' tail tail' : Form} :
    direction.Allows (cons head tail) (cons head' tail') ↔
      direction.Allows head head' ∧ direction.Allows tail tail' := by
  cases direction with
  | shorten => exact ⟨fun | .cons first second => ⟨first, second⟩, fun both => .cons both.1 both.2⟩
  | lengthen => exact ⟨fun | .cons first second => ⟨first, second⟩, fun both => .cons both.1 both.2⟩

theorem allows_combine_iff {combinator : Combinator} {left left' right right' : Form} :
    direction.Allows (combine combinator left right) (combine combinator left' right') ↔
      direction.Allows left left' ∧ direction.Allows right right' := by
  cases direction with
  | shorten =>
    exact ⟨fun | .combine first second => ⟨first, second⟩, fun both => .combine both.1 both.2⟩
  | lengthen =>
    exact ⟨fun | .combine first second => ⟨first, second⟩, fun both => .combine both.1 both.2⟩

theorem allows_choice_iff {condition condition' positive positive' negative negative' : Form} :
    direction.Allows (choice condition positive negative) (choice condition' positive' negative') ↔
      direction.Allows condition condition' ∧ direction.Allows positive positive' ∧
        direction.Allows negative negative' := by
  cases direction with
  | shorten =>
    exact ⟨fun | .choice first second third => ⟨first, second, third⟩,
      fun all => .choice all.1 all.2.1 all.2.2⟩
  | lengthen =>
    exact ⟨fun | .choice first second third => ⟨first, second, third⟩,
      fun all => .choice all.1 all.2.1 all.2.2⟩

theorem allows_boolCons_iff {value : Option Bool} {tail tail' : Form} :
    direction.Allows (boolCons value tail) (boolCons value tail') ↔ direction.Allows tail tail' := by
  cases direction with
  | shorten => exact ⟨fun | .boolCons below => below, .boolCons⟩
  | lengthen => exact ⟨fun | .boolCons below => below, .boolCons⟩

theorem allows_tuple_iff {members members' : List Form} :
    direction.Allows (tuple members) (tuple members') ↔
      List.Forall₂ direction.Allows members members' := by
  cases direction with
  | shorten => exact ⟨fun | .tuple below => below, .tuple⟩
  | lengthen =>
    exact ⟨fun | .tuple below => below.flip, fun below => .tuple below.flip⟩

/-- A function changes one way exactly if its arguments change the other way. -/
theorem allows_function_iff {arguments arguments' : List Form} {result result' : Form} :
    direction.Allows (function arguments result) (function arguments' result') ↔
      List.Forall₂ direction.opposite.Allows arguments arguments' ∧
        direction.Allows result result' := by
  cases direction with
  | shorten =>
    exact ⟨fun | .function above below => ⟨above.flip, below⟩,
      fun both => .function both.1.flip both.2⟩
  | lengthen =>
    exact ⟨fun | .function above below => ⟨above, below⟩, fun both => .function both.1 both.2⟩

/-- A former changes together with its references exactly as counting the references says. -/
theorem allows_living_iff {wrapper : Wrapper} {inner : Form} :
    direction.Allows ((wrap wrapper inner).living .static) (wrap wrapper inner) ↔
      (wrapper.varies → direction = .shorten) ∧
        if wrapper.mutable then inner.living .static = inner
        else direction.Allows (inner.living .static) inner := by
  -- A former that only holds its parameter is no reference and cannot be written through.
  have held (holds : wrapper.Holds) (same : wrapper.living .static = wrapper) :
      direction.Allows ((wrap wrapper inner).living .static) (wrap wrapper inner) ↔
        direction.Allows (inner.living .static) inner := by
    rw [living, same]
    cases direction with
    | shorten => exact subtypeOf_holds_iff holds
    | lengthen => exact subtypeOf_holds_iff holds
  -- What can be replaced is the same on both sides, and so has no lifetime that changes.
  have replaced (replaces : wrapper.Replaces) (same : wrapper.living .static = wrapper) :
      direction.Allows ((wrap wrapper inner).living .static) (wrap wrapper inner) ↔
        inner.living .static = inner := by
    rw [living, same]
    cases direction with
    | shorten => exact subtypeOf_replaces_iff replaces
    | lengthen => exact (subtypeOf_replaces_iff replaces).trans eq_comm
  cases wrapper with
  | ref lifetime =>
    cases direction <;> cases lifetime <;>
      simp [living, Wrapper.living, Direction.Allows, subtypeOf_ref_iff, Lifetime.Outlives,
        Wrapper.varies, Wrapper.mutable]
  | refMut lifetime =>
    cases direction <;> cases lifetime <;>
      simp [living, Wrapper.living, Direction.Allows, subtypeOf_refMut_iff, Lifetime.Outlives,
        Wrapper.varies, Wrapper.mutable, eq_comm]
  | ptrMut => simpa [Wrapper.varies, Wrapper.mutable] using replaced trivial rfl
  | cell => simpa [Wrapper.varies, Wrapper.mutable] using replaced trivial rfl
  | _ => simpa [Wrapper.varies, Wrapper.mutable] using held trivial rfl

end Allows

mutual

/--
The references of a form stand where a direction of change needs them exactly if the form with long-lived
references is related to it by subtyping in that direction.
-/
theorem adapts_iff_allows : ∀ (form : Form) (direction : Direction),
    form.adapts direction ↔ direction.Allows (form.living .static) form
  -- Both sides say the same of the parts, and of what the outermost former adds to them.
  | .atom leaf, direction => by
    cases direction <;> exact iff_of_true rfl (.atom leaf)
  | .bool value, direction => by
    cases direction <;> exact iff_of_true rfl (.bool value)
  | .hole cause, direction => by
    cases direction <;> exact iff_of_true rfl (.hole cause)
  | .wrap wrapper inner, direction => by
    rw [adapts_wrap_iff, allows_living_iff, inner.adapts_iff_allows direction]
  | .cons head tail, direction => by
    rw [adapts_cons_iff, living, allows_cons_iff, head.adapts_iff_allows direction,
      tail.adapts_iff_allows direction]
  | .combine _ left right, direction => by
    rw [adapts_combine_iff, living, allows_combine_iff, left.adapts_iff_allows direction,
      right.adapts_iff_allows direction]
  | .choice condition positive negative, direction => by
    rw [adapts_choice_iff, living, allows_choice_iff, condition.adapts_iff_allows direction,
      positive.adapts_iff_allows direction, negative.adapts_iff_allows direction]
  | .tuple members, direction => by
    rw [adapts_tuple_iff, living, allows_tuple_iff, allAdapt_iff_allows members direction]
  | .function arguments result, direction => by
    rw [adapts_function_iff, living, allows_function_iff,
      allAdapt_iff_allows arguments direction.opposite, result.adapts_iff_allows direction]
  | .boolCons _ tail, direction => by
    rw [adapts_boolCons_iff, living, allows_boolCons_iff, tail.adapts_iff_allows direction]

theorem allAdapt_iff_allows : ∀ (forms : List Form) (direction : Direction),
    (∀ form ∈ forms, form.adapts direction) ↔
      List.Forall₂ direction.Allows (allLiving .static forms) forms
  | [], _ => by simp [allLiving]
  | head :: rest, direction => by
    rw [List.forall_mem_cons, allLiving, List.forall₂_cons, head.adapts_iff_allows direction,
      allAdapt_iff_allows rest direction]

end

/-- Lifetimes can be changed both ways exactly if there are none that can change. -/
theorem adapts_both_iff (form : Form) :
    (form.adapts .shorten ∧ form.adapts .lengthen) ↔ form.living .static = form := by
  rw [← lifetimes_eq_nil_iff form .covariant, adapts_iff_mem, adapts_iff_mem,
    List.eq_nil_iff_forall_not_mem]
  constructor
  · -- No place is both what shortening and what lengthening needs.
    intro both variance member
    cases (both.1 variance member).symm.trans (both.2 variance member)
  · exact fun none => ⟨fun variance member => (none variance member).elim,
      fun variance member => (none variance member).elim⟩

section Lives

variable {lifetime : Lifetime}

theorem lives_iff_parts {form : Form} (plain : ∀ wrapper inner, form ≠ .wrap wrapper inner) :
    form.Lives lifetime ↔ ∀ part ∈ form.parts, part.Lives lifetime :=
  ⟨fun lives _ member => lives.part member, lives_of_parts plain⟩

theorem lives_wrap_iff {wrapper : Wrapper} {inner : Form} :
    (wrap wrapper inner).Lives lifetime ↔ wrapper.living lifetime = wrapper ∧ inner.Lives lifetime := by
  constructor
  · exact fun lives => ⟨lives wrapper inner (.itself _), lives.part (List.mem_singleton_self _)⟩
  · rintro ⟨same, lives⟩
    have whole := lives.wrap wrapper
    rwa [same] at whole

mutual

/-- Giving all references of a form a lifetime changes nothing exactly if all of them have it. -/
theorem living_eq_iff_lives : ∀ form : Form, form.living lifetime = form ↔ form.Lives lifetime
  -- Both are decided former by former, and only references have a lifetime.
  | .atom _ | .bool _ | .hole _ => iff_of_true rfl (lives_of_parts nofun nofun)
  | .wrap wrapper inner => by
    rw [lives_wrap_iff, ← living_eq_iff_lives inner, living, wrap.injEq]
  | .cons head tail => by
    refine Iff.trans ?_ (Iff.symm (lives_iff_parts nofun))
    simp [living, parts, living_eq_iff_lives head, living_eq_iff_lives tail]
  | .combine _ left right => by
    refine Iff.trans ?_ (Iff.symm (lives_iff_parts nofun))
    simp [living, parts, living_eq_iff_lives left, living_eq_iff_lives right]
  | .choice condition positive negative => by
    refine Iff.trans ?_ (Iff.symm (lives_iff_parts nofun))
    simp [living, parts, living_eq_iff_lives condition, living_eq_iff_lives positive,
      living_eq_iff_lives negative]
  | .tuple members => by
    refine Iff.trans ?_ (Iff.symm (lives_iff_parts nofun))
    rw [living, tuple.injEq]
    exact allLiving_eq_iff_lives members
  | .function arguments result => by
    refine Iff.trans ?_ (Iff.symm (lives_iff_parts nofun))
    simp only [living, parts, List.forall_mem_append, List.forall_mem_singleton, function.injEq,
      living_eq_iff_lives result, allLiving_eq_iff_lives arguments]
  | .boolCons _ tail => by
    refine Iff.trans ?_ (Iff.symm (lives_iff_parts nofun))
    simp [living, parts, living_eq_iff_lives tail]

theorem allLiving_eq_iff_lives : ∀ forms : List Form,
    allLiving lifetime forms = forms ↔ ∀ form ∈ forms, form.Lives lifetime
  | [] => iff_of_true rfl nofun
  | head :: rest => by
    rw [List.forall_mem_cons, allLiving, List.cons.injEq, living_eq_iff_lives head,
      allLiving_eq_iff_lives rest]

end

end Lives

/-- References that live at once as long as the program and as their place demands are none. -/
theorem lives_both_iff {form : Form} (varying : form.Lives .varying) :
    form.Lives .static ↔ ∀ wrapper inner, form.Contains (.wrap wrapper inner) → ¬ wrapper.borrows := by
  -- A former that both lifetimes leave as it is has none.
  have own (wrapper : Wrapper) (changed : wrapper.living .varying = wrapper) :
      wrapper.living .static = wrapper ↔ ¬ wrapper.borrows := by
    cases wrapper with
    | ref lifetime => cases changed; decide
    | refMut lifetime => cases changed; decide
    | _ => exact iff_of_true rfl nofun
  exact forall₃_congr fun wrapper inner contains => own wrapper (varying wrapper inner contains)

/-- A list adapts exactly if all of its elements do. -/
theorem adapts_list_iff {direction : Direction} (heads : List Form) :
    (heads.foldr cons nil).adapts direction ↔ ∀ head ∈ heads, head.adapts direction := by
  -- The end of the list has no references, and every node adds those of its head.
  induction heads with
  | nil => exact iff_of_true rfl nofun
  | cons head rest ih => rw [List.foldr_cons, adapts_cons_iff, ih, List.forall_mem_cons]

end Form

end TypeLists
