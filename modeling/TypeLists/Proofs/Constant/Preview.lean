import Mathlib.Tactic.SplitIfs
import TypeLists.Constant.Body
import TypeLists.Proofs.Constant.Order

/-! Previews of function bodies: what a preview knows of an expression is right whenever the expression has a
value, and its failures are those of the mentions on the ways that it leaves open. -/

namespace TypeLists

/-- A sequence has a value exactly if both of its parts have one. -/
theorem Failure.bind_eq_ok_iff {source result : Type} {first : Except Failure source}
    {next : source → Except Failure result} {value : result} :
    (first >>= next) = .ok value ↔ ∃ middle, first = .ok middle ∧ next middle = .ok value := by
  cases first <;> simp [bind, Except.bind]

/-- A sequence fails as its first part does, or as its second part does behind the first. -/
theorem Failure.bind_eq_error_iff {source result : Type} {first : Except Failure source}
    {next : source → Except Failure result} {failure : Failure} :
    (first >>= next) = .error failure ↔
      first = .error failure ∨ ∃ middle, first = .ok middle ∧ next middle = .error failure := by
  cases first <;> simp [bind, Except.bind]

namespace Preview

/-- The preview leaves a value of the expression open: what it knows agrees with the value. -/
structure Admits (preview : Preview) (value : Bool) : Prop where
  /-- The value is not known to be another one. -/
  known : ∀ {foreseen}, preview.value = some foreseen → foreseen = value
  /-- A true condition is known to be possible. -/
  holds : value = true → preview.mayHold
  /-- A false condition is known to be possible. -/
  fails : value = false → preview.mayFail

variable {preview preview' : Preview} {value value' : Bool}

/-- A whole expression admits what its known value does not exclude. -/
theorem admits_whole {failures : List Failure} {foreseen : Option Bool}
    (known : ∀ {other}, foreseen = some other → other = value) : (whole failures foreseen).Admits value where
  known := known
  holds isTrue := by
    subst isTrue
    cases foreseen with
    | none => rfl
    | some other => rw [known rfl]; rfl
  fails isFalse := by
    subst isFalse
    cases foreseen with
    | none => rfl
    | some other => rw [known rfl]; rfl

theorem Admits.not (admits : preview.Admits value) : preview.not.Admits (!value) where
  known {foreseen} found := by
    -- The known value is negated together with the value itself.
    obtain ⟨operand, inner, rfl⟩ := Option.map_eq_some_iff.mp found
    rw [admits.known inner]
  holds isTrue := admits.fails (by simpa using isTrue)
  fails isFalse := admits.holds (by simpa using isFalse)

/-- A conjunction that stops at a false left side admits falsity. -/
theorem Admits.and_skip (admits : preview.Admits false) : (preview.and preview').Admits false where
  known found := by cases found
  holds isTrue := by cases isTrue
  fails _ := Bool.or_eq_true_iff.mpr (.inl (admits.fails rfl))

/-- A conjunction behind a true left side admits what its right side does. -/
theorem Admits.and (admits : preview.Admits true) (admits' : preview'.Admits value) :
    (preview.and preview').Admits value where
  known found := by cases found
  holds isTrue := Bool.and_eq_true_iff.mpr ⟨admits.holds rfl, admits'.holds isTrue⟩
  fails isFalse := Bool.or_eq_true_iff.mpr
    (.inr (Bool.and_eq_true_iff.mpr ⟨admits.holds rfl, admits'.fails isFalse⟩))

/-- A disjunction that stops at a true left side admits truth. -/
theorem Admits.or_skip (admits : preview.Admits true) : (preview.or preview').Admits true where
  known found := by cases found
  holds _ := Bool.or_eq_true_iff.mpr (.inl (admits.holds rfl))
  fails isFalse := by cases isFalse

/-- A disjunction behind a false left side admits what its right side does. -/
theorem Admits.or (admits : preview.Admits false) (admits' : preview'.Admits value) :
    (preview.or preview').Admits value where
  known found := by cases found
  holds isTrue := Bool.or_eq_true_iff.mpr
    (.inr (Bool.and_eq_true_iff.mpr ⟨admits.fails rfl, admits'.holds isTrue⟩))
  fails isFalse := Bool.and_eq_true_iff.mpr ⟨admits.fails rfl, admits'.fails isFalse⟩

/-- An operation on two values admits what it makes of the values that its sides admit. -/
theorem Admits.combine (admits : preview.Admits value) (admits' : preview'.Admits value')
    (operation : Bool → Bool → Bool) :
    (combine operation preview preview').Admits (operation value value') := by
  apply admits_whole
  intro other found
  simp only [Option.bind_eq_bind, Option.bind_eq_some_iff, Option.pure_def, Option.some.injEq] at found
  obtain ⟨first, left, second, right, rfl⟩ := found
  rw [admits.known left, admits'.known right]

/-- The value of a choice is never known, so that it admits every value. -/
theorem admits_choose (condition positive negative : Preview) (value : Bool) :
    (choose condition positive negative).Admits value :=
  admits_whole nofun

end Preview

/-- An integer expression over known types is foreseen exactly as far as it has a value. -/
theorem Arith.foresee_outlook {type : Type} (reading : Reading type) (kind : IntKind) :
    ∀ number : Arith type, number.foresee reading.outlook kind = (number.eval reading kind).toOption
  | .literal _ _ | .least | .greatest | .length _ _ => rfl
  | .negate operand => by
    rw [foresee, operand.foresee_outlook reading kind, eval]
    cases operand.eval reading kind <;> rfl
  | .apply operation left right => by
    rw [foresee, left.foresee_outlook reading kind, right.foresee_outlook reading kind, eval]
    cases left.eval reading kind with
    | error failure => rfl
    | ok first => cases right.eval reading kind <;> rfl

/-- A checked result that does not fit overflows. -/
theorem IntKind.checked_ne_broken (kind : IntKind) (number : Int) (index : Nat) :
    kind.checked number ≠ .error (.broken index) := by
  unfold checked
  split_ifs <;> simp

/-- An operation fails in ways of its own. -/
theorem IntKind.apply_ne_broken (kind : IntKind) (operation : ArithOp) (left right : Int) (index : Nat) :
    kind.apply operation left right ≠ .error (.broken index) := by
  cases operation with
  | add => exact kind.checked_ne_broken _ index
  | sub => exact kind.checked_ne_broken _ index
  | mul => exact kind.checked_ne_broken _ index
  | div =>
    rw [apply]
    split_ifs
    · simp
    · exact kind.checked_ne_broken _ index
  | rem =>
    rw [apply]
    split_ifs
    · simp
    · intro fails
      cases quotient : kind.checked (left.tdiv right) with
      | ok number => simp [quotient, Except.map] at fails
      | error failure =>
        rw [quotient] at fails
        cases fails
        exact kind.checked_ne_broken _ index quotient

/-- Arithmetic never fails as a broken expression does. -/
theorem Arith.eval_ne_broken {type : Type} (reading : Reading type) (kind : IntKind) (index : Nat) :
    ∀ number : Arith type, number.eval reading kind ≠ .error (.broken index)
  | .literal _ _, fails | .least, fails | .greatest, fails | .length _ _, fails => by cases fails
  | .negate operand, fails => by
    rcases Failure.bind_eq_error_iff.mp fails with inner | ⟨number, _, overflows⟩
    · exact operand.eval_ne_broken reading kind index inner
    · exact kind.checked_ne_broken _ index overflows
  | .apply operation left right, fails => by
    rcases Failure.bind_eq_error_iff.mp fails with inner | ⟨first, _, rest⟩
    · exact left.eval_ne_broken reading kind index inner
    · rcases Failure.bind_eq_error_iff.mp rest with inner | ⟨second, _, applied⟩
      · exact right.eval_ne_broken reading kind index inner
      · exact kind.apply_ne_broken operation _ _ index applied

namespace Constant

variable {type : Type} {reading : Reading type}

/-- A preview admits the value that an expression has when it runs. -/
theorem admits_preview : ∀ {constant : Constant type} {value : Bool},
    constant.run reading = .ok value → (constant.preview reading.outlook).Admits value
  -- The recursion follows the run, which enters only ways that are left open.
  | .literal _, value, runs => by
    cases runs
    exact Preview.admits_whole fun found => (Option.some.inj found).symm
  | .not operand, value, runs => by
    obtain ⟨decision, inner, same⟩ := Failure.bind_eq_ok_iff.mp runs
    cases same
    exact (admits_preview inner).not
  | .connect .and left right, value, runs => by
    obtain ⟨decision, first, rest⟩ := Failure.bind_eq_ok_iff.mp runs
    cases decision with
    | false =>
      cases rest
      exact (admits_preview first).and_skip
    | true => exact (admits_preview first).and (admits_preview rest)
  | .connect .or left right, value, runs => by
    obtain ⟨decision, first, rest⟩ := Failure.bind_eq_ok_iff.mp runs
    cases decision with
    | false => exact (admits_preview first).or (admits_preview rest)
    | true =>
      cases rest
      exact (admits_preview first).or_skip
  | .connect .xor left right, value, runs => by
    obtain ⟨first, leftRuns, rest⟩ := Failure.bind_eq_ok_iff.mp runs
    obtain ⟨second, rightRuns, same⟩ := Failure.bind_eq_ok_iff.mp rest
    cases same
    exact (admits_preview leftRuns).combine (admits_preview rightRuns) fun left right => left != right
  | .connect .band left right, value, runs => by
    obtain ⟨first, leftRuns, rest⟩ := Failure.bind_eq_ok_iff.mp runs
    obtain ⟨second, rightRuns, same⟩ := Failure.bind_eq_ok_iff.mp rest
    cases same
    exact (admits_preview leftRuns).combine (admits_preview rightRuns) fun left right => left && right
  | .choose _ _ _, value, _ => Preview.admits_choose _ _ _ value
  | .compare comparison kind left right, value, runs => by
    obtain ⟨first, leftRuns, rest⟩ := Failure.bind_eq_ok_iff.mp runs
    obtain ⟨second, rightRuns, same⟩ := Failure.bind_eq_ok_iff.mp rest
    apply Preview.admits_whole
    intro other found
    -- Both numbers are foreseen, since both have a value.
    rw [Arith.foresee_outlook, Arith.foresee_outlook, leftRuns, rightRuns] at found
    cases same
    exact (Option.some.inj found).symm
  | .panic _, value, runs => by cases runs
  | .mention how subject, value, runs => by
    have outcome : reading.outlook.outcome? how subject = some (.ok value) := congrArg some runs
    rw [preview, outcome]
    exact Preview.admits_whole fun found => (Option.some.inj found).symm

/-- An operand lies on a way that the known values leave open. -/
def leads (outlook : Outlook type) : Constant type → Nat → Bool
  -- Only short-circuiting connectives and choices have operands that may be passed by.
  | .connect .and left _, 1 => (left.preview outlook).mayHold
  | .connect .or left _, 1 => (left.preview outlook).mayFail
  | .choose condition _ _, 1 => (condition.preview outlook).mayHold
  | .choose condition _ _, 2 => (condition.preview outlook).mayFail
  | _, _ => true

/-- A place lies on the ways that the known values leave open. -/
inductive Ahead (outlook : Outlook type) : Constant type → List Nat → Prop where
  | here (constant : Constant type) : Ahead outlook constant []
  | within {constant operand : Constant type} {number : Nat} {place : List Nat}
    (member : constant.operands[number]? = some operand) (leads : constant.leads outlook number)
    (ahead : Ahead outlook operand place) : Ahead outlook constant (number :: place)

/-- A mention on an open way of a constant is foreseen to fail. -/
def Foreseen (outlook : Outlook type) (constant : Constant type) (failure : Failure) : Prop :=
  ∃ place how subject, constant.Occurs place how subject ∧ constant.Ahead outlook place ∧
    outlook.outcome? how subject = some (.error failure)

/-- A numbered member of a nonempty list is the first one, or a member of the rest. -/
theorem exists_getElem?_cons_iff {element : Type} {head : element} {rest : List element}
    {holds : Nat → element → Prop} :
    (∃ number member, (head :: rest)[number]? = some member ∧ holds number member) ↔
      holds 0 head ∨ ∃ number member, rest[number]? = some member ∧ holds (number + 1) member := by
  constructor
  · intro found
    obtain ⟨number, member, found, holding⟩ := found
    cases number with
    | zero =>
      cases found
      exact .inl holding
    | succ number => exact .inr ⟨number, member, found, holding⟩
  · intro either
    rcases either with holding | ⟨number, member, found, holding⟩
    · exact ⟨0, head, rfl, holding⟩
    · exact ⟨number + 1, member, found, holding⟩

/-- What is foreseen in a constant with operands is foreseen in one of those on the open ways. -/
theorem foreseen_iff {outlook : Outlook type} {constant : Constant type} {failure : Failure}
    (operands : constant.operands ≠ []) :
    constant.Foreseen outlook failure ↔ ∃ number operand, constant.operands[number]? = some operand ∧
      constant.leads outlook number ∧ operand.Foreseen outlook failure := by
  constructor
  · intro foreseen
    obtain ⟨place, how, subject, occurs, ahead, fails⟩ := foreseen
    cases occurs with
    | here => exact absurd rfl operands
    | within member occurs =>
      cases ahead with
      | within member' leads ahead =>
        cases member.symm.trans member'
        exact ⟨_, _, member, leads, _, how, subject, occurs, ahead, fails⟩
  · intro parts
    obtain ⟨number, operand, member, leads, place, how, subject, occurs, ahead, fails⟩ := parts
    exact ⟨number :: place, how, subject, .within member occurs, .within member leads ahead, fails⟩

/-- Without operands and mentions, nothing is foreseen. -/
theorem not_foreseen {outlook : Outlook type} {constant : Constant type} {failure : Failure}
    (operands : constant.operands = []) (bare : constant.isMention = false) :
    ¬ constant.Foreseen outlook failure := by
  intro foreseen
  obtain ⟨place, how, subject, occurs, _⟩ := foreseen
  cases occurs with
  | here => cases bare
  | within member => simp [operands] at member

/-- A preview finds exactly the failures of the mentions on the open ways. -/
theorem mem_preview_failures_iff {outlook : Outlook type} {failure : Failure} :
    ∀ {constant : Constant type},
      failure ∈ (constant.preview outlook).failures ↔ constant.Foreseen outlook failure
  | .literal _ | .compare _ _ _ _ | .panic _ =>
    iff_of_false List.not_mem_nil (not_foreseen rfl rfl)
  | .mention how subject => by
    have only : (Constant.mention how subject).Foreseen outlook failure ↔
        outlook.outcome? how subject = some (.error failure) := by
      constructor
      · intro foreseen
        obtain ⟨place, how, subject, occurs, _, fails⟩ := foreseen
        cases occurs with
        | here => exact fails
        | within member => simp [operands] at member
      · intro fails
        exact ⟨[], how, subject, .here how subject, .here _, fails⟩
    rw [only, preview]
    rcases outlook.outcome? how subject with _ | failure' | value
    · exact iff_of_false List.not_mem_nil (by simp)
    · simp [Preview.whole, eq_comm]
    · exact iff_of_false List.not_mem_nil (by simp)
  | .not operand => by
    have inner : (Constant.not operand).Foreseen outlook failure ↔ operand.Foreseen outlook failure := by
      rw [foreseen_iff (by simp [operands]), operands, exists_getElem?_cons_iff]
      simp [leads]
    rw [inner, ← mem_preview_failures_iff]
    rfl
  | .connect connective left right => by
    have inner : (Constant.connect connective left right).Foreseen outlook failure ↔
        left.Foreseen outlook failure ∨
          (Constant.connect connective left right).leads outlook 1 ∧
            right.Foreseen outlook failure := by
      rw [foreseen_iff (by simp [operands]), operands, exists_getElem?_cons_iff,
        exists_getElem?_cons_iff]
      cases connective <;> simp [leads]
    rw [inner, ← mem_preview_failures_iff, ← mem_preview_failures_iff]
    -- A short-circuiting connective leaves its right side out where the left one is known to decide.
    cases connective with
    | and => rw [preview, Preview.and, List.mem_append, List.mem_ite_nil_right]; rfl
    | or => rw [preview, Preview.or, List.mem_append, List.mem_ite_nil_right]; rfl
    | xor => simp [preview, Preview.combine, Preview.whole, leads]
    | band => simp [preview, Preview.combine, Preview.whole, leads]
  | .choose condition positive negative => by
    have inner : (Constant.choose condition positive negative).Foreseen outlook failure ↔
        condition.Foreseen outlook failure ∨
          (condition.preview outlook).mayHold ∧ positive.Foreseen outlook failure ∨
            (condition.preview outlook).mayFail ∧ negative.Foreseen outlook failure := by
      rw [foreseen_iff (by simp [operands]), operands, exists_getElem?_cons_iff,
        exists_getElem?_cons_iff, exists_getElem?_cons_iff]
      simp [leads]
    rw [inner, ← mem_preview_failures_iff, ← mem_preview_failures_iff, ← mem_preview_failures_iff,
      preview, Preview.choose, Preview.whole, List.mem_append, List.mem_append, List.mem_ite_nil_right,
      List.mem_ite_nil_right, or_assoc]

/-- An expression that runs into a broken one has it on its open ways. -/
theorem foreseen_of_run {index : Nat} : ∀ {constant : Constant type},
    constant.run reading = .error (.broken index) →
      constant.Foreseen reading.outlook (.broken index)
  -- The run stops in an operand that it comes to, and what it passed before admits the way there.
  | .literal _, stops | .panic _, stops => by cases stops
  | .not operand, stops => by
    rcases Failure.bind_eq_error_iff.mp stops with inner | ⟨value, _, same⟩
    · exact (foreseen_iff (by simp [operands])).mpr ⟨0, operand, rfl, rfl, foreseen_of_run inner⟩
    · cases same
  | .connect .and left right, stops => by
    rw [foreseen_iff (by simp [operands])]
    rcases Failure.bind_eq_error_iff.mp stops with inner | ⟨value, first, rest⟩
    · exact ⟨0, left, rfl, rfl, foreseen_of_run inner⟩
    · cases value with
      | false => cases rest
      | true => exact ⟨1, right, rfl, (admits_preview first).holds rfl, foreseen_of_run rest⟩
  | .connect .or left right, stops => by
    rw [foreseen_iff (by simp [operands])]
    rcases Failure.bind_eq_error_iff.mp stops with inner | ⟨value, first, rest⟩
    · exact ⟨0, left, rfl, rfl, foreseen_of_run inner⟩
    · cases value with
      | false => exact ⟨1, right, rfl, (admits_preview first).fails rfl, foreseen_of_run rest⟩
      | true => cases rest
  | .connect .xor left right, stops | .connect .band left right, stops => by
    rw [foreseen_iff (by simp [operands])]
    rcases Failure.bind_eq_error_iff.mp stops with inner | ⟨value, first, rest⟩
    · exact ⟨0, left, rfl, rfl, foreseen_of_run inner⟩
    · rcases Failure.bind_eq_error_iff.mp rest with inner | ⟨value', second, same⟩
      · exact ⟨1, right, rfl, rfl, foreseen_of_run inner⟩
      · cases same
  | .choose condition positive negative, stops => by
    rw [foreseen_iff (by simp [operands])]
    rcases Failure.bind_eq_error_iff.mp stops with inner | ⟨value, first, rest⟩
    · exact ⟨0, condition, rfl, rfl, foreseen_of_run inner⟩
    · cases value with
      | true => exact ⟨1, positive, rfl, (admits_preview first).holds rfl, foreseen_of_run rest⟩
      | false => exact ⟨2, negative, rfl, (admits_preview first).fails rfl, foreseen_of_run rest⟩
  | .compare comparison kind left right, stops => by
    rcases Failure.bind_eq_error_iff.mp stops with inner | ⟨number, _, rest⟩
    · exact absurd inner (left.eval_ne_broken reading kind index)
    · rcases Failure.bind_eq_error_iff.mp rest with inner | ⟨number', _, same⟩
      · exact absurd inner (right.eval_ne_broken reading kind index)
      · cases same
  | .mention how subject, stops =>
    ⟨[], how, subject, .here how subject, .here _, congrArg some stops⟩

end Constant

end TypeLists
