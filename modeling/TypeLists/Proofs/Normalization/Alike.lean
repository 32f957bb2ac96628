import Mathlib.Data.Option.Basic
import TypeLists.Proofs.Constant.Guards
import TypeLists.Proofs.Constant.Observed

/-! Types in two scopes: where the names that are used in a type agree, so do its normal forms and everything
that is found on the way to them. -/

namespace TypeLists

/-- Two checked values in which the same is found, and whose values are related. -/
structure Checked.Alike {first second : Type} (related : first → second → Prop)
    (checked : Checked first) (checked' : Checked second) : Prop where
  value : related checked.value checked'.value
  findings : checked.findings = checked'.findings

namespace Checked

variable {first second third fourth : Type} {related : first → second → Prop}
  {related' : third → fourth → Prop} {checked : Checked first} {checked' : Checked second}

theorem Alike.refl (checked : Checked first) : Alike Eq checked checked := ⟨rfl, rfl⟩

theorem alike_of_eq {checked checked' : Checked first} (same : checked = checked') :
    Alike Eq checked checked' := same ▸ .refl checked

theorem alike_pure {value : first} {value' : second} (same : related value value') :
    Alike related (pure value) (pure value') := ⟨same, rfl⟩

/-- What goes on alike with related values stays alike. -/
theorem Alike.bind (alike : Alike related checked checked') {next : first → Checked third}
    {next' : second → Checked fourth}
    (then_ : ∀ value value', related value value' → Alike related' (next value) (next' value')) :
    Alike related' (checked >>= next) (checked' >>= next') := by
  have rest := then_ _ _ alike.value
  refine ⟨rest.value, ?_⟩
  rw [findings_bind, findings_bind, alike.findings, rest.findings]

/-- The same faults may be noted on both sides. -/
theorem Alike.noted {stage : Stage} {faults faults' : List Fault} (same : faults = faults')
    (alike : Alike related checked checked') :
    Alike related (do note stage faults; checked) (do note stage faults'; checked') := by
  subst same
  exact (Alike.refl (note stage faults)).bind fun _ _ _ => alike

theorem Alike.faults (alike : Alike related checked checked') : checked.faults = checked'.faults := by
  rw [Checked.faults, Checked.faults, alike.findings]

theorem Alike.mono {related'' : first → second → Prop} (alike : Alike related checked checked')
    (more : ∀ value value', related value value' → related'' value value') :
    Alike related'' checked checked' := ⟨more _ _ alike.value, alike.findings⟩

theorem Alike.eq {checked checked' : Checked first} (alike : Alike Eq checked checked') :
    checked = checked' := ext alike.value alike.findings

end Checked

/-- Two constants observe the same. -/
def Constant.Matches (constant constant' : Constant Form) : Prop :=
  constant.observed = constant'.observed

/-- Two integer expressions observe the same. -/
def Arith.Matches (number number' : Arith Form) : Prop :=
  number.observed = number'.observed

/-- The trait is one that types and constants ask of what they are made of. -/
def Trait.Asked : Trait → Prop
  | auto _ | declared _ => False
  | list _ | boolExpr | eval | select | sized => True

/-- A relation between the forms of two scopes that all formers and rules of types respect. -/
structure Scope.Respects (scope : Scope) (related : Form → Form → Prop) (scope' : Scope) : Prop where
  limit : scope.limit = scope'.limit
  atom (leaf : Atom) : related (.atom leaf) (.atom leaf)
  wrap (wrapper : Wrapper) {inner inner' : Form} : related inner inner' →
    related (.wrap (wrapper.living scope.lifetime) inner)
      (.wrap (wrapper.living scope'.lifetime) inner')
  cons {head head' tail tail' : Form} : related head head' → related tail tail' →
    related (.cons head tail) (.cons head' tail')
  combine (combinator : Combinator) {left left' right right' : Form} : related left left' →
    related right right' → related (.combine combinator left right) (.combine combinator left' right')
  choice {condition condition' positive positive' negative negative' : Form} :
    related condition condition' → related positive positive' → related negative negative' →
    related (.choice condition positive negative) (.choice condition' positive' negative')
  tuple {members members' : List Form} : List.Forall₂ related members members' →
    related (.tuple members) (.tuple members')
  function {arguments arguments' : List Form} {result result' : Form} :
    List.Forall₂ related arguments arguments' → related result result' →
    related (.function arguments result) (.function arguments' result')
  bool (value : Option Bool) : related (.bool value) (.bool value)
  boolCons (value : Option Bool) {tail tail' : Form} : related tail tail' →
    related (.boolCons value tail) (.boolCons value tail')
  lost : related .lost .lost
  closed {form form' : Form} : related form form' → form.closed = form'.closed
  settled {form form' : Form} : related form form' → form.settled = form'.settled
  malformed {form form' : Form} : related form form' →
    form.malformed scope.limit = form'.malformed scope'.limit
  unmet (trait : Trait) (asked : trait.Asked) {form form' : Form} : related form form' →
    form.unmet scope.limit trait = form'.unmet scope'.limit trait
  value {form form' : Form} : related form form' → form.value = form'.value
  length (kind : ListKind) {form form' : Form} : related form form' →
    form.length kind = form'.length kind
  output {form form' : Form} : related form form' → Option.Rel related form.output? form'.output?
  select {form form' : Form} : related form form' → Option.Rel related form.select? form'.select?

/-- A name agrees in two scopes, as far as one way of using it goes. -/
def Scope.Agrees (scope : Scope) (related : Form → Form → Prop) (scope' : Scope) (name : TypeName) :
    Option Mention → Prop
  | none => Checked.Alike related (scope.meaning name) (scope'.meaning name)
  | some how => Checked.Alike Constant.Matches ((Constant.mention how (.named name)).normalize scope)
      ((Constant.mention how (.named name)).normalize scope')

/-- All names agree in two scopes, as far as they are used. -/
def Scope.AgreesOn (scope : Scope) (related : Form → Form → Prop) (scope' : Scope)
    (uses : TypeName → List (Option Mention)) : Prop :=
  ∀ name, ∀ use ∈ uses name, scope.Agrees related scope' name use

namespace Scope

variable {related : Form → Form → Prop} {scope scope' : Scope}

theorem agreesOn_append_iff {uses uses' : TypeName → List (Option Mention)} :
    scope.AgreesOn related scope' (fun name => uses name ++ uses' name) ↔
      scope.AgreesOn related scope' uses ∧ scope.AgreesOn related scope' uses' := by
  simp only [AgreesOn, List.forall_mem_append]
  exact forall_and

/-- In scopes of one limit, equality is respected where references live equally long. -/
theorem respects_eq (limit : scope.limit = scope'.limit) (lifetime : scope.lifetime = scope'.lifetime) :
    scope.Respects Eq scope' where
  limit := limit
  atom _ := rfl
  wrap _ _ _ same := by rw [same, lifetime]
  cons first second := by rw [first, second]
  combine _ _ _ _ _ first second := by rw [first, second]
  choice first second third := by rw [first, second, third]
  tuple same := by
    rw [List.forall₂_eq_eq_eq] at same
    rw [same]
  function first second := by
    rw [List.forall₂_eq_eq_eq] at first
    rw [first, second]
  bool _ := rfl
  boolCons _ _ _ same := by rw [same]
  lost := rfl
  closed same := by rw [same]
  settled same := by rw [same]
  malformed same := by rw [same, limit]
  unmet _ _ _ _ same := by rw [same, limit]
  value same := by rw [same]
  length _ _ _ same := by rw [same]
  output same := by
    rw [same]
    cases Form.output? _ with
    | none => exact .none
    | some _ => exact .some rfl
  select same := by
    rw [same]
    cases Form.select? _ with
    | none => exact .none
    | some _ => exact .some rfl

namespace Respects

variable (respects : scope.Respects related scope')

include respects

theorem formed {form form' : Form} (same : related form form') :
    Checked.Alike related (Form.formed scope.limit form) (Form.formed scope'.limit form') :=
  (Checked.alike_pure same).noted (respects.malformed same)

theorem wrapped (wrapper : Wrapper) {inner inner' : Form} (same : related inner inner') :
    Checked.Alike related (Form.wrapped scope wrapper inner) (Form.wrapped scope' wrapper inner') := by
  -- Whether a parameter can be outlived is decided by whether one occurs.
  refine (respects.formed (respects.wrap wrapper same)).noted ?_
  rw [respects.closed same]

theorem projected (trait : Trait) (asked : trait.Asked) {form form' : Form} (same : related form form')
    {result? result?' : Option Form} (results : Option.Rel related result? result?') :
    Checked.Alike related (form.projected scope.limit trait result?)
      (form'.projected scope'.limit trait result?') := by
  refine (Checked.alike_pure ?_).noted (respects.unmet trait asked same)
  rw [respects.settled same]
  split
  · cases results with
    | some same => exact same
    | none => exact respects.lost
  · exact respects.lost

theorem mention_unmet (how : Mention) {form form' : Form} (same : related form form') :
    how.unmet scope.limit form = how.unmet scope'.limit form' := by
  have guarded : form.unguardable scope.limit = form'.unguardable scope'.limit := by
    rw [Form.unguardable, Form.unguardable, respects.unmet .sized trivial same,
      respects.unmet .boolExpr trivial same]
  cases how with
  | value => exact respects.unmet .boolExpr trivial same
  | boolGuard => exact guarded
  | eagerBool => exact guarded
  | typeGuard => rfl
  | eagerType => rfl

theorem mention_matches (how : Mention) {form form' : Form} (same : related form form') :
    Constant.Matches (.mention how form) (.mention how form') := by
  have outcome : Form.reading.outcome how form = Form.reading.outcome how form' := by
    cases how <;> simp only [Form.reading, respects.value same]
  rw [Constant.Matches, Constant.observed, Constant.observed, outcome, respects.closed same]

/-- A name with related forms in two scopes agrees there, however it is used. -/
theorem agrees {name : TypeName} (alike : Checked.Alike related (scope.meaning name) (scope'.meaning name))
    (use : Option Mention) : scope.Agrees related scope' name use := by
  cases use with
  | none => exact alike
  | some how =>
    rw [Agrees, Constant.normalize, Constant.normalize, Ty.normalize, Ty.normalize]
    refine alike.bind fun _ _ same => ?_
    exact (Checked.alike_pure (respects.mention_matches how same)).noted
      (respects.mention_unmet how same)

end Respects

end Scope

theorem Arith.Matches.hasMinus {number number' : Arith Form} (same : number.Matches number') :
    number.hasMinus = number'.hasMinus := by
  rw [← hasMinus_observed, same, hasMinus_observed]

/-- Constants in which the same is found and that observe the same are evaluated alike. -/
theorem Constant.settle_congr {checked checked' : Checked (Constant Form)}
    (alike : Checked.Alike Matches checked checked') : settle checked = settle checked' := by
  have same : checked.value.asItem Form.reading = checked'.value.asItem Form.reading := by
    rw [← asItem_observed, alike.value, asItem_observed]
  rw [settle, settle, alike.faults, same]

section Normalize

variable {related : Form → Form → Prop} {scope scope' : Scope}

mutual

/-- A type whose names agree in two scopes has related forms there, and the same is found in it. -/
theorem Ty.normalize_alike (respects : scope.Respects related scope') : ∀ type : Ty,
    scope.AgreesOn related scope' (fun name => type.uses name) →
      Checked.Alike related (type.normalize scope) (type.normalize scope')
  -- The recursion is that of the normalizer, whose every step respects the relation.
  | .atom leaf, _ => by
    rw [Ty.normalize, Ty.normalize]
    exact Checked.alike_pure (respects.atom leaf)
  | .wrap wrapper inner, agrees => by
    rw [Ty.normalize, Ty.normalize]
    exact (inner.normalize_alike respects agrees).bind fun _ _ same => respects.wrapped wrapper same
  | .cons head tail, agrees => by
    obtain ⟨headAgrees, tailAgrees⟩ := Scope.agreesOn_append_iff.mp agrees
    rw [Ty.normalize, Ty.normalize]
    exact (head.normalize_alike respects headAgrees).bind fun _ _ same =>
      (tail.normalize_alike respects tailAgrees).bind fun _ _ same' =>
        respects.formed (respects.cons same same')
  | .combine combinator left right, agrees => by
    obtain ⟨leftAgrees, rightAgrees⟩ := Scope.agreesOn_append_iff.mp agrees
    rw [Ty.normalize, Ty.normalize]
    exact (left.normalize_alike respects leftAgrees).bind fun _ _ same =>
      (right.normalize_alike respects rightAgrees).bind fun _ _ same' =>
        respects.formed (respects.combine combinator same same')
  | .choice condition positive negative, agrees => by
    obtain ⟨conditionAgrees, others⟩ := Scope.agreesOn_append_iff.mp agrees
    obtain ⟨positiveAgrees, negativeAgrees⟩ := Scope.agreesOn_append_iff.mp others
    rw [Ty.normalize, Ty.normalize]
    exact (condition.normalize_alike respects conditionAgrees).bind fun _ _ same =>
      (positive.normalize_alike respects positiveAgrees).bind fun _ _ same' =>
        (negative.normalize_alike respects negativeAgrees).bind fun _ _ same'' =>
          respects.formed (respects.choice same same' same'')
  | .tuple members, agrees => by
    rw [Ty.normalize, Ty.normalize]
    exact (Ty.normalizeAll_alike respects members agrees).bind fun _ _ same =>
      respects.formed (respects.tuple same)
  | .function arguments result, agrees => by
    obtain ⟨argumentsAgree, resultAgrees⟩ := Scope.agreesOn_append_iff.mp agrees
    rw [Ty.normalize, Ty.normalize]
    exact (Ty.normalizeAll_alike respects arguments argumentsAgree).bind fun _ _ same =>
      (result.normalize_alike respects resultAgrees).bind fun _ _ same' =>
        respects.formed (respects.function same same')
  | .bool constant, agrees => by
    -- A constant is evaluated to one value on both sides.
    rw [Ty.normalize, Ty.normalize, Constant.settle_congr (constant.normalize_alike respects agrees)]
    refine (Checked.Alike.refl _).bind fun value _ same => ?_
    rw [← same]
    exact respects.formed (respects.bool value)
  | .boolCons constant tail, agrees => by
    obtain ⟨constantAgrees, tailAgrees⟩ := Scope.agreesOn_append_iff.mp agrees
    rw [Ty.normalize, Ty.normalize,
      Constant.settle_congr (constant.normalize_alike respects constantAgrees)]
    refine (Checked.Alike.refl _).bind fun value _ same => ?_
    rw [← same]
    exact (tail.normalize_alike respects tailAgrees).bind fun _ _ same' =>
      respects.formed (respects.boolCons value same')
  | .list tokens, agrees => by
    rw [Ty.normalize, Ty.normalize]
    exact Ty.normalizeTokens_alike respects tokens agrees
  | .boolList tokens, agrees => by
    rw [Ty.normalize, Ty.normalize]
    exact Constant.normalizeTokens_alike respects tokens agrees
  | .output subject, agrees => by
    rw [Ty.normalize, Ty.normalize]
    exact (subject.normalize_alike respects agrees).bind fun _ _ same =>
      respects.projected .eval trivial same (respects.output same)
  | .select subject, agrees => by
    rw [Ty.normalize, Ty.normalize]
    exact (subject.normalize_alike respects agrees).bind fun _ _ same =>
      respects.projected .select trivial same (respects.select same)
  | .named name, agrees => agrees name none (by simp [Ty.uses])

/-- Some types whose names agree have related forms one by one. -/
theorem Ty.normalizeAll_alike (respects : scope.Respects related scope') : ∀ types : List Ty,
    scope.AgreesOn related scope' (fun name => Ty.allUses name types) →
      Checked.Alike (List.Forall₂ related) (Ty.normalizeAll scope types) (Ty.normalizeAll scope' types)
  | [], _ => by
    rw [Ty.normalizeAll, Ty.normalizeAll]
    exact Checked.alike_pure .nil
  | head :: rest, agrees => by
    obtain ⟨headAgrees, restAgrees⟩ := Scope.agreesOn_append_iff.mp agrees
    rw [Ty.normalizeAll, Ty.normalizeAll]
    exact (head.normalize_alike respects headAgrees).bind fun _ _ same =>
      (Ty.normalizeAll_alike respects rest restAgrees).bind fun _ _ same' =>
        Checked.alike_pure (.cons same same')

/-- A type list whose names agree stands for related chains. -/
theorem Ty.normalizeTokens_alike (respects : scope.Respects related scope') :
    ∀ tokens : List (Token Ty), scope.AgreesOn related scope' (fun name => Ty.tokenUses name tokens) →
      Checked.Alike related (Ty.normalizeTokens scope tokens) (Ty.normalizeTokens scope' tokens)
  | [], _ => by
    rw [Ty.normalizeTokens, Ty.normalizeTokens]
    exact Checked.alike_pure (respects.atom .nil)
  | .comma :: rest, agrees => by
    rw [Ty.normalizeTokens, Ty.normalizeTokens]
    exact Ty.normalizeTokens_alike respects rest agrees
  | .element head :: rest, agrees => by
    obtain ⟨headAgrees, restAgrees⟩ := Scope.agreesOn_append_iff.mp agrees
    rw [Ty.normalizeTokens, Ty.normalizeTokens]
    exact (head.normalize_alike respects headAgrees).bind fun _ _ same =>
      (Ty.normalizeTokens_alike respects rest restAgrees).bind fun _ _ same' =>
        respects.formed (respects.cons same same')

/-- A constant whose names agree observes the same in both scopes. -/
theorem Constant.normalize_alike (respects : scope.Respects related scope') :
    ∀ constant : Constant Ty, scope.AgreesOn related scope' (fun name => constant.uses name) →
      Checked.Alike Constant.Matches (constant.normalize scope) (constant.normalize scope')
  -- What is named is observed at once, so that a name need agree only in what its mention shows.
  | .literal _, _ | .panic _, _ => by
    rw [Constant.normalize, Constant.normalize]
    exact Checked.alike_pure rfl
  | .not operand, agrees => by
    rw [Constant.normalize, Constant.normalize]
    exact (operand.normalize_alike respects agrees).bind fun _ _ same =>
      Checked.alike_pure (congrArg Constant.not same)
  | .connect connective left right, agrees => by
    obtain ⟨leftAgrees, rightAgrees⟩ := Scope.agreesOn_append_iff.mp agrees
    rw [Constant.normalize, Constant.normalize]
    exact (left.normalize_alike respects leftAgrees).bind fun _ _ same =>
      (right.normalize_alike respects rightAgrees).bind fun _ _ same' =>
        Checked.alike_pure (congrArg₂ (Constant.connect connective) same same')
  | .choose condition positive negative, agrees => by
    obtain ⟨conditionAgrees, others⟩ := Scope.agreesOn_append_iff.mp agrees
    obtain ⟨positiveAgrees, negativeAgrees⟩ := Scope.agreesOn_append_iff.mp others
    rw [Constant.normalize, Constant.normalize]
    refine (condition.normalize_alike respects conditionAgrees).bind fun _ _ same =>
      (positive.normalize_alike respects positiveAgrees).bind fun _ _ same' =>
        (negative.normalize_alike respects negativeAgrees).bind fun _ _ same'' =>
          Checked.alike_pure ?_
    rw [Constant.Matches, Constant.observed, Constant.observed, same, same', same'']
  | .compare comparison kind left right, agrees => by
    obtain ⟨leftAgrees, rightAgrees⟩ := Scope.agreesOn_append_iff.mp agrees
    rw [Constant.normalize, Constant.normalize]
    refine (left.normalize_alike respects leftAgrees).bind fun _ _ same =>
      (right.normalize_alike respects rightAgrees).bind fun _ _ same' => ?_
    rw [same.hasMinus, same'.hasMinus]
    refine Checked.Alike.noted rfl (Checked.alike_pure ?_)
    rw [Constant.Matches, Constant.observed, Constant.observed, same, same']
  | .mention how subject, agrees => by
    cases subject with
    | named name => exact agrees name (some how) (by simp [Constant.uses, Ty.isName])
    | _ =>
      -- What is more than a name uses names by itself.
      rw [Constant.normalize, Constant.normalize]
      refine (Ty.normalize_alike respects _ agrees).bind fun _ _ same => ?_
      exact (Checked.alike_pure (respects.mention_matches how same)).noted
        (respects.mention_unmet how same)

/-- An integer expression whose names agree observes the same in both scopes. -/
theorem Arith.normalize_alike (respects : scope.Respects related scope') :
    ∀ number : Arith Ty, scope.AgreesOn related scope' (fun name => number.uses name) →
      Checked.Alike Arith.Matches (number.normalize scope) (number.normalize scope')
  | .literal _ _, _ | .least, _ | .greatest, _ => by
    rw [Arith.normalize, Arith.normalize]
    exact Checked.alike_pure rfl
  | .negate operand, agrees => by
    rw [Arith.normalize, Arith.normalize]
    exact (operand.normalize_alike respects agrees).bind fun _ _ same =>
      Checked.alike_pure (congrArg Arith.negate same)
  | .apply operation left right, agrees => by
    obtain ⟨leftAgrees, rightAgrees⟩ := Scope.agreesOn_append_iff.mp agrees
    rw [Arith.normalize, Arith.normalize]
    exact (left.normalize_alike respects leftAgrees).bind fun _ _ same =>
      (right.normalize_alike respects rightAgrees).bind fun _ _ same' =>
        Checked.alike_pure (congrArg₂ (Arith.apply operation) same same')
  | .length kind list, agrees => by
    rw [Arith.normalize, Arith.normalize]
    refine (list.normalize_alike respects agrees).bind fun _ _ same => ?_
    refine (Checked.alike_pure ?_).noted (respects.unmet (.list kind) trivial same)
    rw [Arith.Matches, Arith.observed, Arith.observed, respects.length kind same, respects.closed same]

/-- A boolean list whose names agree stands for related chains. -/
theorem Constant.normalizeTokens_alike (respects : scope.Respects related scope') :
    ∀ tokens : List (Token (Constant Ty)),
      scope.AgreesOn related scope' (fun name => Constant.tokenUses name tokens) →
        Checked.Alike related (Constant.normalizeTokens scope tokens) (Constant.normalizeTokens scope' tokens)
  | [], _ => by
    rw [Constant.normalizeTokens, Constant.normalizeTokens]
    exact Checked.alike_pure (respects.atom .boolNil)
  | .comma :: rest, agrees => by
    rw [Constant.normalizeTokens, Constant.normalizeTokens]
    exact Constant.normalizeTokens_alike respects rest agrees
  | .element head :: rest, agrees => by
    obtain ⟨headAgrees, restAgrees⟩ := Scope.agreesOn_append_iff.mp agrees
    rw [Constant.normalizeTokens, Constant.normalizeTokens,
      Constant.settle_congr (head.normalize_alike respects headAgrees)]
    refine (Checked.Alike.refl _).bind fun value _ same => ?_
    rw [← same]
    exact (Constant.normalizeTokens_alike respects rest restAgrees).bind fun _ _ same' =>
      respects.formed (respects.boolCons value same')

end

/-- Types are read alike in two scopes whose names agree. -/
theorem Ty.normalize_congr (limit : scope.limit = scope'.limit)
    (lifetime : scope.lifetime = scope'.lifetime) (type : Ty)
    (agrees : scope.AgreesOn Eq scope' fun name => type.uses name) :
    type.normalize scope = type.normalize scope' :=
  (type.normalize_alike (Scope.respects_eq limit lifetime) agrees).eq

end Normalize

end TypeLists
