import Mathlib.Data.List.Forall2
import TypeLists.Proofs.Constant.Tripping
import TypeLists.Proofs.Normalization.Alike
import TypeLists.Proofs.Normalization.Faults
import TypeLists.Proofs.Refusal

/-! Obligations: what a type owes to the rules of its formers, of its projections and of its constants. Every
fault that is found in a type is one of an obligation, and only too deep a proof hides others. -/

namespace TypeLists

section Closed

namespace Form

/-- A form is closed exactly if nothing in it is open but what was lost. -/
theorem closed_iff {form : Form} : form.closed ↔ ∀ hole ∈ form.holes, hole = .lost := by
  simp only [closed, List.all_eq_true, decide_eq_true_eq]

theorem closed_all_iff {forms : List Form} :
    (∀ hole ∈ allHoles forms, hole = .lost) ↔ ∀ form ∈ forms, form.closed := by
  simp only [allHoles_eq, List.forall_mem_flatMap, closed_iff]

@[simp] theorem closed_cons_iff {head tail : Form} :
    (Form.cons head tail).closed ↔ head.closed ∧ tail.closed := by
  simp only [closed_iff, holes, List.forall_mem_append]

@[simp] theorem closed_combine_iff {combinator : Combinator} {left right : Form} :
    (Form.combine combinator left right).closed ↔ left.closed ∧ right.closed := by
  simp only [closed_iff, holes, List.forall_mem_append]

@[simp] theorem closed_choice_iff {condition positive negative : Form} :
    (Form.choice condition positive negative).closed ↔
      condition.closed ∧ positive.closed ∧ negative.closed := by
  simp only [closed_iff, holes, List.forall_mem_append, and_assoc]

@[simp] theorem closed_tuple_iff {members : List Form} :
    (Form.tuple members).closed ↔ ∀ member ∈ members, member.closed := by
  rw [closed_iff, holes, closed_all_iff]

@[simp] theorem closed_function_iff {arguments : List Form} {result : Form} :
    (Form.function arguments result).closed ↔
      (∀ argument ∈ arguments, argument.closed) ∧ result.closed := by
  rw [closed_iff, holes, List.forall_mem_append, closed_all_iff, closed_iff]

/-- What a delayed type gives back holds no more parameters than the delayed type. -/
theorem closed_output {form inner : Form} (closed : form.closed) (gives : form.output? = some inner) :
    inner.closed := by
  unfold output? at gives
  split at gives
  · cases gives
    exact closed
  · cases gives

/-- What a choice gives back holds no more parameters than the choice. -/
theorem closed_select {form inner : Form} (closed : form.closed) (gives : form.select? = some inner) :
    inner.closed := by
  unfold select? at gives
  split at gives
  · split at gives
    · exact closed_output (closed_choice_iff.mp closed).2.1 gives
    · cases gives
  · split at gives
    · exact closed_output (closed_choice_iff.mp closed).2.2 gives
    · cases gives
  · cases gives

end Form

/-- No former and no projection makes a parameter where there is none. -/
theorem Scope.respects_closed (scope : Scope) :
    scope.Respects (fun form form' => form.closed ∧ form = form') scope where
  limit := rfl
  atom _ := ⟨rfl, rfl⟩
  wrap _ _ _ both := ⟨both.1, by rw [both.2]⟩
  cons first second := ⟨by simp [first.1, second.1], by rw [first.2, second.2]⟩
  combine _ _ _ _ _ first second := ⟨by simp [first.1, second.1], by rw [first.2, second.2]⟩
  choice first second third :=
    ⟨by simp [first.1, second.1, third.1], by rw [first.2, second.2, third.2]⟩
  tuple same := by
    obtain ⟨closed, same⟩ := (List.forall₂_and_left _ _).mp same
    rw [List.forall₂_eq_eq_eq] at same
    exact ⟨Form.closed_tuple_iff.mpr closed, by rw [same]⟩
  function first second := by
    obtain ⟨closed, same⟩ := (List.forall₂_and_left _ _).mp first
    rw [List.forall₂_eq_eq_eq] at same
    exact ⟨Form.closed_function_iff.mpr ⟨closed, second.1⟩, by rw [same, second.2]⟩
  bool value := ⟨by cases value <;> rfl, rfl⟩
  boolCons value tail _ same := by
    refine ⟨Form.closed_iff.mpr (List.forall_mem_append.mpr ⟨?_, Form.closed_iff.mp same.1⟩),
      by rw [same.2]⟩
    cases value <;> simp
  lost := ⟨rfl, rfl⟩
  closed same := by rw [same.2]
  settled same := by rw [same.2]
  malformed same := by rw [same.2]
  unmet _ _ _ _ same := by rw [same.2]
  value same := by rw [same.2]
  length _ _ _ same := by rw [same.2]
  output {form form'} same := by
    obtain ⟨closed, rfl⟩ := same
    cases gives : form.output? with
    | none => exact .none
    | some inner => exact .some ⟨Form.closed_output closed gives, rfl⟩
  select {form form'} same := by
    obtain ⟨closed, rfl⟩ := same
    cases gives : form.select? with
    | none => exact .none
    | some inner => exact .some ⟨Form.closed_select closed gives, rfl⟩

/-- The names of a scope stand for types without parameters in them. -/
structure Scope.Closed (scope : Scope) : Prop where
  value : ∀ name, (scope.meaning name).value.closed
  /-- Without parameters, there are no lifetimes to compare. -/
  early : ∀ name, ∀ finding ∈ (scope.meaning name).findings, finding.stage ≠ .lifetimes

/-- A type without parameters in it has a normal form without them. -/
theorem Scope.Closed.normalize {scope : Scope} (closed : scope.Closed) (type : Ty) :
    (type.normalize scope).value.closed :=
  (type.normalize_alike scope.respects_closed fun name use _ =>
    scope.respects_closed.agrees ⟨⟨closed.value name, rfl⟩, rfl⟩ use).value.1

end Closed

/-- The fault is found in the body. -/
def Checked.Finds {result : Type} (checked : Checked result) (fault : Fault) : Prop :=
  ∃ finding ∈ checked.findings, finding.fault = fault

/-- What a type owes to one of the rules that it stands under. -/
inductive Obligation where
  /-- A part of the type has to implement a trait. -/
  | implements (trait : Trait) (asked : trait.Asked) (subject : Ty)
  /-- A constant that the type carries has to have a value. -/
  | evaluates (constant : Constant Ty)
  /-- Numbers that cannot be negative have no minus sign. -/
  | unsigned (kind : IntKind) (left right : Arith Ty)

/-- The faults of an obligation that is not met. -/
def Obligation.faults (scope : Scope) : Obligation → List Fault
  -- A constant is evaluated if nothing is wrong with it before.
  | implements trait _ subject => (subject.normalize scope).value.unmet scope.limit trait
  | evaluates constant =>
    Finding.faultsAt [.evaluation] (Constant.settle (constant.normalize scope)).findings
  | unsigned kind left right =>
    if !kind.signed && ((left.normalize scope).value.hasMinus || (right.normalize scope).value.hasMinus)
    then [.unsignedMinus] else []

/-- A requirement of types and constants is not met for want of room or for want of the trait. -/
theorem Form.mem_unmet_iff {limit : Nat} {trait : Trait} (asked : trait.Asked) {form : Form} {fault : Fault} :
    fault ∈ form.unmet limit trait ↔ form.settled ∧
      (limit < form.proofDepth trait ∧ fault = .tooDeep ∨
        form.proofDepth trait ≤ limit ∧ ¬ form.implements trait ∧ fault = .illTyped) := by
  have shortfall : form.shortfall trait = .illTyped := by
    cases trait with
    | declared _ => exact asked.elim
    | _ => rfl
  unfold unmet
  by_cases settled : form.settled
  · by_cases deep : limit < form.proofDepth trait
    · simp [settled, deep, Nat.not_le.mpr deep]
    · by_cases has : form.implements trait <;>
        simp [settled, deep, has, shortfall, Nat.not_lt.mp deep]
  · simp [settled]

/-- Obligations are of four kinds of faults only. -/
theorem Obligation.fault_cases {scope : Scope} {obligation : Obligation} {fault : Fault}
    (wrong : fault ∈ obligation.faults scope) :
    fault = .illTyped ∨
      (fault = .tooDeep ∧ ∃ trait asked subject, obligation = .implements trait asked subject) ∨
      (∃ failure, fault = .failed failure) ∨
      fault = .unsignedMinus ∧ ∃ kind left right, obligation = .unsigned kind left right := by
  cases obligation with
  | implements trait asked subject =>
    obtain ⟨_, ⟨_, rfl⟩ | ⟨_, _, rfl⟩⟩ := (Form.mem_unmet_iff asked).mp wrong
    · exact .inr (.inl ⟨rfl, _, _, _, rfl⟩)
    · exact .inl rfl
  | evaluates constant =>
    obtain ⟨finding, kept, rfl⟩ := List.mem_map.mp wrong
    obtain ⟨member, stage⟩ := List.mem_filter.mp kept
    rw [Constant.settle] at member
    -- Only an evaluation that fails comes up at its stage.
    split at member
    · split at member
      · exact absurd member List.not_mem_nil
      · rw [List.mem_singleton.mp member]
        exact .inr (.inr (.inl ⟨_, rfl⟩))
    · obtain ⟨_, _, rfl⟩ := List.mem_map.mp member
      simp at stage
  | unsigned kind left right =>
    simp only [faults] at wrong
    split at wrong
    · exact .inr (.inr (.inr ⟨List.mem_singleton.mp wrong, _, _, _, rfl⟩))
    · exact absurd wrong List.not_mem_nil

/-- What a former with one parameter demands of its parameter. -/
def Wrapper.obligations (inner : Ty) (wrapper : Wrapper) : List Obligation :=
  if wrapper = .boolGuard then [.implements .sized trivial inner, .implements .boolExpr trivial inner]
  else if wrapper.needsSized then [.implements .sized trivial inner] else []

/-- What a mention demands of the type that it names. -/
def Mention.obligations (subject : Ty) : Mention → List Obligation
  | value => [.implements .boolExpr trivial subject]
  | boolGuard | eagerBool => [.implements .sized trivial subject, .implements .boolExpr trivial subject]
  | typeGuard | eagerType => []

mutual

/-- All that a type owes, in its parts and in its constants as well. -/
def Ty.obligations : Ty → List Obligation
  -- The parts come first, as they do where the type is normalized.
  | .atom _ | .named _ => []
  | .wrap wrapper inner => inner.obligations ++ wrapper.obligations inner
  | .cons head tail => head.obligations ++ (tail.obligations ++ [.implements (.list .types) trivial tail])
  | .combine _ left right =>
    left.obligations ++ (right.obligations ++
      [.implements .sized trivial left, .implements .sized trivial right])
  | .choice condition positive negative =>
    condition.obligations ++ (positive.obligations ++ (negative.obligations ++
      [.implements .sized trivial condition, .implements .sized trivial positive,
        .implements .sized trivial negative]))
  | .tuple members => Ty.allObligations members ++ members.dropLast.map (.implements .sized trivial)
  | .function arguments result => Ty.allObligations arguments ++ result.obligations
  | .bool constant => constant.obligations ++ [.evaluates constant]
  | .boolCons constant tail =>
    constant.obligations ++ .evaluates constant ::
      (tail.obligations ++ [.implements (.list .bools) trivial tail])
  | .list tokens => Ty.tokenObligations tokens
  | .boolList tokens => Constant.tokenObligations tokens
  | .output subject => subject.obligations ++ [.implements .eval trivial subject]
  | .select subject => subject.obligations ++ [.implements .select trivial subject]

/-- All that some types owe. -/
def Ty.allObligations : List Ty → List Obligation
  | [] => []
  | head :: rest => head.obligations ++ Ty.allObligations rest

/-- All that a type list owes, whose tails are type lists again. -/
def Ty.tokenObligations : List (Token Ty) → List Obligation
  | [] => []
  | .comma :: rest => Ty.tokenObligations rest
  | .element head :: rest =>
    head.obligations ++ (Ty.tokenObligations rest ++ [.implements (.list .types) trivial (.list rest)])

/-- All that the types in a constant owe, and what the constant owes before it is evaluated. -/
def Constant.obligations : Constant Ty → List Obligation
  | .literal _ | .panic _ => []
  | .not operand => operand.obligations
  | .connect _ left right => left.obligations ++ right.obligations
  | .choose condition positive negative =>
    condition.obligations ++ (positive.obligations ++ negative.obligations)
  | .compare _ kind left right =>
    left.obligations ++ (right.obligations ++ [.unsigned kind left right])
  | .mention how subject => subject.obligations ++ how.obligations subject

/-- All that the lists in an integer expression owe, and that they are lists. -/
def Arith.obligations : Arith Ty → List Obligation
  | .literal _ _ | .least | .greatest => []
  | .negate operand => operand.obligations
  | .apply _ left right => left.obligations ++ right.obligations
  | .length kind list => list.obligations ++ [.implements (.list kind) trivial list]

/-- All that a boolean list owes, whose tails are boolean lists again. -/
def Constant.tokenObligations : List (Token (Constant Ty)) → List Obligation
  | [] => []
  | .comma :: rest => Constant.tokenObligations rest
  | .element head :: rest =>
    head.obligations ++ .evaluates head ::
      (Constant.tokenObligations rest ++ [.implements (.list .bools) trivial (.boolList rest)])

end

/-- The fault is one of some obligations, or lies behind a name that is used. -/
def Scope.Blames (scope : Scope) (obligations : List Obligation)
    (uses : TypeName → List (Option Mention)) (fault : Fault) : Prop :=
  (∃ obligation ∈ obligations, fault ∈ obligation.faults scope) ∨
    ∃ name, uses name ≠ [] ∧ (scope.meaning name).Finds fault

/-- What is found in a body is what some obligations and names account for. -/
structure Scope.Accounts {result : Type} (scope : Scope) (checked : Checked result)
    (obligations : List Obligation) (uses : TypeName → List (Option Mention)) : Prop where
  /-- No lifetimes are compared. -/
  early : ∀ finding ∈ checked.findings, finding.stage ≠ .lifetimes
  /-- Whatever is found is accounted for. -/
  blames : ∀ fault, checked.Finds fault → scope.Blames obligations uses fault
  /-- What is to blame is found, unless too deep a proof is found instead. -/
  finds : ∀ fault, scope.Blames obligations uses fault →
    (fault = .tooDeep ∨ ¬ checked.Finds .tooDeep) → checked.Finds fault

namespace Checked

variable {source result : Type} {fault : Fault}

@[simp] theorem finds_pure {value : source} : (pure value : Checked source).Finds fault ↔ False := by
  simp [Finds]

@[simp] theorem finds_bind {first : Checked source} {next : source → Checked result} :
    (first >>= next).Finds fault ↔ first.Finds fault ∨ (next first.value).Finds fault := by
  simp only [Finds, findings_bind, List.mem_append, or_and_right, exists_or]

@[simp] theorem finds_note {stage : Stage} {faults : List Fault} :
    (note stage faults).Finds fault ↔ fault ∈ faults := by
  simp [Finds, note]

/-- What is reported of a body was found in it. -/
theorem finds_of_mem_faults {checked : Checked source} (member : fault ∈ checked.faults) :
    checked.Finds fault :=
  Finding.exists_of_mem_reported member

/-- Where no lifetimes are compared, what is found is reported, or too deep a proof is. -/
theorem mem_faults_of_finds {checked : Checked source}
    (early : ∀ finding ∈ checked.findings, finding.stage ≠ .lifetimes) (found : checked.Finds fault)
    (whole : fault = .tooDeep ∨ ¬ checked.Finds .tooDeep) : fault ∈ checked.faults := by
  obtain ⟨finding, member, rfl⟩ := found
  have inside : finding.fault ∈ Finding.faultsAt [.reported, .evaluation] checked.findings ++
      Finding.cutOff (Finding.faultsAt [.projection, .formation] checked.findings) := by
    -- A finding of the later stage is left if it is too deep a proof, or if there is none.
    have late (stage : finding.stage ∈ [Stage.projection, .formation]) :
        finding.fault ∈ Finding.cutOff (Finding.faultsAt [.projection, .formation] checked.findings) := by
      have member : finding.fault ∈ Finding.faultsAt [.projection, .formation] checked.findings := by
        simp only [Finding.faultsAt, List.mem_map, List.mem_filter, decide_eq_true_eq]
        exact ⟨finding, ⟨member, stage⟩, rfl⟩
      unfold Finding.cutOff
      split
      · rename_i deep
        obtain ⟨cause, kept, same⟩ := List.mem_map.mp deep
        rcases whole with same | none
        · exact List.mem_singleton.mpr same
        · exact absurd ⟨cause, (List.mem_filter.mp kept).1, same⟩ none
      · exact member
    have first (stage : finding.stage ∈ [Stage.reported, .evaluation]) :
        finding.fault ∈ Finding.faultsAt [.reported, .evaluation] checked.findings := by
      simp only [Finding.faultsAt, List.mem_map, List.mem_filter, decide_eq_true_eq]
      exact ⟨finding, ⟨member, stage⟩, rfl⟩
    cases stage : finding.stage with
    | reported => exact List.mem_append_left _ (first (by simp [stage]))
    | evaluation => exact List.mem_append_left _ (first (by simp [stage]))
    | projection => exact List.mem_append_right _ (late (by simp [stage]))
    | formation => exact List.mem_append_right _ (late (by simp [stage]))
    | lifetimes => exact absurd stage (early finding member)
  rw [faults, Finding.reported, if_neg (by simpa using List.ne_nil_of_mem inside)]
  exact inside

end Checked

namespace Scope

variable {source result : Type} {scope : Scope} {obligations obligations' : List Obligation}
  {uses uses' : TypeName → List (Option Mention)}

theorem blames_append_iff {fault : Fault} :
    scope.Blames (obligations ++ obligations') (fun name => uses name ++ uses' name) fault ↔
      scope.Blames obligations uses fault ∨ scope.Blames obligations' uses' fault := by
  simp only [Blames, List.mem_append, ne_eq, List.append_eq_nil_iff, not_and_or, or_and_right, exists_or]
  exact or_or_or_comm

namespace Accounts

theorem pure {value : source} : scope.Accounts (pure value) [] fun _ => [] where
  early _ member := absurd member List.not_mem_nil
  blames _ found := absurd found (by simp)
  finds _ blamed _ := by simp [Blames] at blamed

/-- What two parts account for, their sequence does. -/
theorem bind {checked : Checked source} {next : source → Checked result}
    (first : scope.Accounts checked obligations uses)
    (second : scope.Accounts (next checked.value) obligations' uses') :
    scope.Accounts (checked >>= next) (obligations ++ obligations') fun name => uses name ++ uses' name where
  early finding member := by
    rcases List.mem_append.mp member with member | member
    · exact first.early finding member
    · exact second.early finding member
  blames fault found := by
    rw [Checked.finds_bind] at found
    exact blames_append_iff.mpr (found.imp (first.blames fault) (second.blames fault))
  finds fault blamed whole := by
    rw [Checked.finds_bind, not_or] at whole
    rw [Checked.finds_bind]
    exact (blames_append_iff.mp blamed).imp
      (fun blamed => first.finds fault blamed (whole.imp_right And.left))
      (fun blamed => second.finds fault blamed (whole.imp_right And.right))

/-- What only owes and uses no name goes last without a trace among the names. -/
theorem last {checked : Checked source} {next : source → Checked result}
    (first : scope.Accounts checked obligations uses)
    (second : scope.Accounts (next checked.value) obligations' fun _ => []) :
    scope.Accounts (checked >>= next) (obligations ++ obligations') uses := by
  simpa only [List.append_nil] using first.bind second

/-- What neither owes anything nor uses a name leaves no trace at the end. -/
theorem ends {checked : Checked source} {next : source → Checked result}
    (first : scope.Accounts checked obligations uses)
    (second : scope.Accounts (next checked.value) [] fun _ => []) :
    scope.Accounts (checked >>= next) obligations uses := by
  simpa only [List.append_nil] using first.last second

/-- Faults that are noted are those of some obligations. -/
theorem note {stage : Stage} {faults : List Fault} (early : stage ≠ .lifetimes)
    (same : ∀ fault, fault ∈ faults ↔ ∃ obligation ∈ obligations, fault ∈ obligation.faults scope) :
    scope.Accounts (Checked.note stage faults) obligations fun _ => [] where
  early finding member := by
    obtain ⟨_, _, rfl⟩ := List.mem_map.mp member
    exact early
  blames fault found := .inl ((same fault).mp (Checked.finds_note.mp found))
  finds fault blamed _ := by
    rcases blamed with owed | ⟨_, used, _⟩
    · exact Checked.finds_note.mpr ((same fault).mpr owed)
    · exact absurd rfl used

/-- A value that follows on noted faults adds nothing to them. -/
theorem noted {stage : Stage} {faults : List Fault} {value : source} (early : stage ≠ .lifetimes)
    (same : ∀ fault, fault ∈ faults ↔ ∃ obligation ∈ obligations, fault ∈ obligation.faults scope) :
    scope.Accounts (do Checked.note stage faults; return value) obligations fun _ => [] :=
  (Accounts.note early same).ends .pure

theorem formed {form : Form}
    (same : ∀ fault, fault ∈ form.malformed scope.limit ↔
      ∃ obligation ∈ obligations, fault ∈ obligation.faults scope) :
    scope.Accounts (Form.formed scope.limit form) obligations fun _ => [] :=
  .noted (by decide) same

/-- A projection owes the trait that it needs. -/
theorem projected (trait : Trait) (asked : trait.Asked) {result? : Option Form} {subject : Ty} :
    scope.Accounts ((subject.normalize scope).value.projected scope.limit trait result?)
      [.implements trait asked subject] fun _ => [] :=
  .noted (by decide) fun fault => by simp [Obligation.faults]

/-- A constant that a type carries owes a value. -/
theorem settle {constant : Constant Ty}
    (accounts : scope.Accounts (constant.normalize scope) obligations uses) :
    scope.Accounts (Constant.settle (constant.normalize scope)) (obligations ++ [.evaluates constant])
      uses := by
  have parts {fault : Fault} : scope.Blames (obligations ++ [.evaluates constant]) uses fault ↔
      scope.Blames obligations uses fault ∨ fault ∈ (Obligation.evaluates constant).faults scope := by
    simp only [Blames, List.mem_append, List.mem_singleton, or_and_right, exists_or, exists_eq_left]
    exact or_right_comm
  by_cases quiet : (constant.normalize scope).faults = []
  · -- Nothing is to blame before the evaluation, and all that is found comes up there.
    have clean := Checked.faults_eq_nil_iff.mp quiet
    have none : ∀ fault, ¬ (constant.normalize scope).Finds fault := by
      rw [clean]
      rintro fault ⟨finding, member, _⟩
      exact List.not_mem_nil member
    have evaluated : ∀ finding ∈ (Constant.settle (constant.normalize scope)).findings,
        finding.stage = .evaluation := by
      rw [clean, Constant.settle_clean]
      intro finding member
      split at member
      · exact absurd member List.not_mem_nil
      · exact List.mem_singleton.mp member ▸ rfl
    have finds {fault : Fault} : (Constant.settle (constant.normalize scope)).Finds fault ↔
        fault ∈ (Obligation.evaluates constant).faults scope := by
      simp only [Checked.Finds, Obligation.faults, Finding.faultsAt, List.mem_map, List.mem_filter,
        List.mem_singleton, decide_eq_true_eq]
      constructor
      · rintro ⟨finding, member, same⟩
        exact ⟨finding, ⟨member, evaluated finding member⟩, same⟩
      · rintro ⟨finding, ⟨member, _⟩, same⟩
        exact ⟨finding, member, same⟩
    exact {
      early := fun finding member => by simp [evaluated finding member]
      blames := fun fault found => parts.mpr (.inr (finds.mp found))
      finds := fun fault blamed _ => by
        rcases parts.mp blamed with blamed | owed
        · exact absurd (accounts.finds fault blamed (.inr (none _))) (none fault)
        · exact finds.mpr owed }
  · -- The faults of the constant are handed on, and nothing is evaluated.
    have handed := Constant.settle_faulty quiet
    have unevaluated : (Obligation.evaluates constant).faults scope = [] := by
      rw [Obligation.faults, handed, Finding.faultsAt_eq_nil_iff]
      intro finding member
      obtain ⟨_, _, rfl⟩ := List.mem_map.mp member
      simp
    have finds {fault : Fault} : (Constant.settle (constant.normalize scope)).Finds fault ↔
        fault ∈ (constant.normalize scope).faults := by
      rw [handed]
      exact Checked.finds_note
    exact {
      early := fun finding member => by
        rw [handed] at member
        obtain ⟨_, _, rfl⟩ := List.mem_map.mp member
        simp
      blames := fun fault found =>
        parts.mpr (.inl (accounts.blames fault (Checked.finds_of_mem_faults (finds.mp found))))
      finds := fun fault blamed whole => by
        have whole : fault = .tooDeep ∨ ¬ (constant.normalize scope).Finds .tooDeep :=
          whole.imp_right fun none deep =>
            none (finds.mpr (Checked.mem_faults_of_finds accounts.early deep (.inl rfl)))
        rcases parts.mp blamed with blamed | owed
        · exact finds.mpr
            (Checked.mem_faults_of_finds accounts.early (accounts.finds fault blamed whole) whole)
        · rw [unevaluated] at owed
          exact absurd owed List.not_mem_nil }

/-- A former with one parameter owes what it demands of its parameter, which has no parameter to outlive. -/
theorem wrapped (wrapper : Wrapper) {inner : Ty} (closed : (inner.normalize scope).value.closed) :
    scope.Accounts (Form.wrapped scope wrapper (inner.normalize scope).value)
      (wrapper.obligations inner) fun _ => [] := by
  have whole : Form.wrapped scope wrapper (inner.normalize scope).value = Form.formed scope.limit
      (.wrap (wrapper.living scope.lifetime) (inner.normalize scope).value) := by
    rw [Form.wrapped, closed, Bool.not_true, Bool.and_false]
    rfl
  rw [whole]
  refine .formed fun fault => ?_
  cases wrapper <;>
    simp [Wrapper.living, Wrapper.obligations, Wrapper.needsSized, Form.malformed, Form.unguardable,
      Obligation.faults]

/-- A name owes nothing where it is used, and what it stands for is found there. -/
theorem meaning (closed : scope.Closed) (name : TypeName) :
    scope.Accounts (scope.meaning name) [] fun other => (Ty.named name).uses other where
  early := closed.early name
  blames fault found := .inr ⟨name, by simp [Ty.uses], found⟩
  finds fault blamed _ := by
    rcases blamed with ⟨_, none, _⟩ | ⟨other, used, found⟩
    · exact absurd none List.not_mem_nil
    · by_cases same : name = other
      · exact same ▸ found
      · exact absurd (if_neg same) used

/-- It is the same to use a name in one way or in another. -/
theorem congr {checked : Checked source} (accounts : scope.Accounts checked obligations uses)
    (same : ∀ name, uses name ≠ [] ↔ uses' name ≠ []) : scope.Accounts checked obligations uses' where
  early := accounts.early
  blames fault found := (accounts.blames fault found).imp_right fun ⟨name, used, found⟩ =>
    ⟨name, (same name).mp used, found⟩
  finds fault blamed := accounts.finds fault (blamed.imp_right fun ⟨name, used, found⟩ =>
    ⟨name, (same name).mpr used, found⟩)

end Accounts

/-- What is measured or named in a constant is used as a type is. -/
theorem uses_mention (how : Mention) (subject : Ty) (name : TypeName) :
    subject.uses name ≠ [] ↔ (Constant.mention how subject).uses name ≠ [] := by
  rw [Constant.uses]
  split
  · rename_i marked
    rw [Ty.eq_of_isName marked, Ty.uses, if_pos rfl]
    exact iff_of_true (List.cons_ne_nil _ _) (List.cons_ne_nil _ _)
  · rfl

end Scope

section Accounts

variable {scope : Scope}

/-- The normal forms of some types are those of each of them. -/
theorem Ty.value_normalizeAll (types : List Ty) :
    (Ty.normalizeAll scope types).value = types.map fun type => (type.normalize scope).value := by
  induction types with
  | nil => rfl
  | cons head rest ih => rw [Ty.normalizeAll, Checked.value_bind, Checked.value_bind, ih]; rfl

/-- A tuple breaks the rule that all its members but the last are sized exactly where they owe that. -/
theorem Ty.mem_malformed_tuple_iff (members : List Ty) (fault : Fault) :
    fault ∈ (Form.tuple (Ty.normalizeAll scope members).value).malformed scope.limit ↔
      ∃ obligation ∈ members.dropLast.map (Obligation.implements .sized trivial),
        fault ∈ obligation.faults scope := by
  simp only [Form.malformed, Ty.value_normalizeAll, ← List.map_dropLast, List.mem_flatMap, List.mem_map,
    exists_exists_and_eq_and, Obligation.faults]

open Scope (Accounts)

mutual

/-- All that is found in a type is accounted for by what the type owes and by the names in it. -/
theorem Ty.accounts (closed : scope.Closed) : ∀ type : Ty,
    scope.Accounts (type.normalize scope) type.obligations fun name => type.uses name
  -- The recursion is that of the normalizer, which notes the faults of a former after those of its parts.
  | .atom _ => .pure
  | .wrap wrapper inner => by
    rw [Ty.normalize]
    exact (inner.accounts closed).last (.wrapped wrapper (closed.normalize inner))
  | .cons head tail => by
    rw [Ty.normalize]
    exact (head.accounts closed).bind ((tail.accounts closed).last
      (.formed fun fault => by simp [Form.malformed, Obligation.faults]))
  | .combine _ left right => by
    rw [Ty.normalize]
    exact (left.accounts closed).bind ((right.accounts closed).last
      (.formed fun fault => by simp [Form.malformed, Obligation.faults]))
  | .choice condition positive negative => by
    rw [Ty.normalize]
    exact (condition.accounts closed).bind ((positive.accounts closed).bind
      ((negative.accounts closed).last
        (.formed fun fault => by simp [Form.malformed, Obligation.faults])))
  | .tuple members => by
    rw [Ty.normalize]
    exact (Ty.accountsAll closed members).last (.formed (Ty.mem_malformed_tuple_iff members))
  | .function arguments result => by
    rw [Ty.normalize]
    exact (Ty.accountsAll closed arguments).bind ((result.accounts closed).ends
      (.formed fun fault => by simp [Form.malformed]))
  | .bool constant => by
    rw [Ty.normalize]
    exact (constant.accounts closed).settle.ends (.formed fun fault => by simp [Form.malformed])
  | .boolCons constant tail => by
    rw [Ty.normalize, Ty.obligations, List.append_cons]
    exact (constant.accounts closed).settle.bind ((tail.accounts closed).last
      (.formed fun fault => by simp [Form.malformed, Obligation.faults]))
  | .list tokens => by
    rw [Ty.normalize]
    exact Ty.accountsTokens closed tokens
  | .boolList tokens => by
    rw [Ty.normalize]
    exact Constant.accountsTokens closed tokens
  | .output subject => by
    rw [Ty.normalize]
    exact (subject.accounts closed).last (.projected .eval trivial)
  | .select subject => by
    rw [Ty.normalize]
    exact (subject.accounts closed).last (.projected .select trivial)
  | .named name => by
    rw [Ty.normalize]
    exact .meaning closed name

theorem Ty.accountsAll (closed : scope.Closed) : ∀ types : List Ty,
    scope.Accounts (Ty.normalizeAll scope types) (Ty.allObligations types) fun name => Ty.allUses name types
  | [] => .pure
  | head :: rest => by
    rw [Ty.normalizeAll]
    exact (head.accounts closed).bind ((Ty.accountsAll closed rest).ends .pure)

theorem Ty.accountsTokens (closed : scope.Closed) : ∀ tokens : List (Token Ty),
    scope.Accounts (Ty.normalizeTokens scope tokens) (Ty.tokenObligations tokens)
      fun name => Ty.tokenUses name tokens
  | [] => .pure
  | .comma :: rest => by
    rw [Ty.normalizeTokens]
    exact Ty.accountsTokens closed rest
  | .element head :: rest => by
    rw [Ty.normalizeTokens]
    exact (head.accounts closed).bind ((Ty.accountsTokens closed rest).last
      (.formed fun fault => by simp [Form.malformed, Obligation.faults, Ty.normalize]))

theorem Constant.accounts (closed : scope.Closed) : ∀ constant : Constant Ty,
    scope.Accounts (constant.normalize scope) constant.obligations fun name => constant.uses name
  | .literal _ | .panic _ => .pure
  | .not operand => by
    rw [Constant.normalize]
    exact (operand.accounts closed).ends .pure
  | .connect _ left right => by
    rw [Constant.normalize]
    exact (left.accounts closed).bind ((right.accounts closed).ends .pure)
  | .choose condition positive negative => by
    rw [Constant.normalize]
    exact (condition.accounts closed).bind
      ((positive.accounts closed).bind ((negative.accounts closed).ends .pure))
  | .compare _ kind left right => by
    rw [Constant.normalize]
    exact (left.accounts closed).bind ((right.accounts closed).last
      (.noted (by decide) fun fault => by simp [Obligation.faults]))
  | .mention how subject => by
    rw [Constant.normalize]
    refine ((subject.accounts closed).last (.noted (by decide) fun fault => ?_)).congr
      (Scope.uses_mention how subject)
    cases how <;> simp [Mention.obligations, Mention.unmet, Form.unguardable, Obligation.faults]

theorem Arith.accounts (closed : scope.Closed) : ∀ number : Arith Ty,
    scope.Accounts (number.normalize scope) number.obligations fun name => number.uses name
  | .literal _ _ | .least | .greatest => .pure
  | .negate operand => by
    rw [Arith.normalize]
    exact (operand.accounts closed).ends .pure
  | .apply _ left right => by
    rw [Arith.normalize]
    exact (left.accounts closed).bind ((right.accounts closed).ends .pure)
  | .length kind list => by
    rw [Arith.normalize]
    exact (list.accounts closed).last (.noted (by decide) fun fault => by simp [Obligation.faults])

theorem Constant.accountsTokens (closed : scope.Closed) : ∀ tokens : List (Token (Constant Ty)),
    scope.Accounts (Constant.normalizeTokens scope tokens) (Constant.tokenObligations tokens)
      fun name => Constant.tokenUses name tokens
  | [] => .pure
  | .comma :: rest => by
    rw [Constant.normalizeTokens]
    exact Constant.accountsTokens closed rest
  | .element head :: rest => by
    rw [Constant.normalizeTokens, Constant.tokenObligations, List.append_cons]
    exact (head.accounts closed).settle.bind ((Constant.accountsTokens closed rest).last
      (.formed fun fault => by simp [Form.malformed, Obligation.faults, Ty.normalize]))

end

end Accounts

end TypeLists
