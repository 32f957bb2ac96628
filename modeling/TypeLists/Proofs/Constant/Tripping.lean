import TypeLists.Proofs.Constant.Guards
import TypeLists.Proofs.Refusal

/-! Constants that trip: what is lost to a fault meets every requirement, and a constant in which a guard
finds a fault has no value. -/

namespace TypeLists

namespace Form

variable {limit : Nat}

/-- What is kept of a type can be guarded as the type could. -/
theorem unguardable_of_kept {before form : Form} (kept : form = before ∨ form.Lost)
    (met : before.unguardable limit = []) : form.unguardable limit = [] := by
  obtain ⟨sized, expression⟩ := List.append_eq_nil_iff.mp met
  exact List.append_eq_nil_iff.mpr ⟨unmet_of_kept kept sized, unmet_of_kept kept expression⟩

/-- What is kept of a type can be mentioned as the type could. -/
theorem unmet_mention_of_kept {how : Mention} {before form : Form} (kept : form = before ∨ form.Lost)
    (met : how.unmet limit before = []) : how.unmet limit form = [] := by
  cases how with
  | value => exact unmet_of_kept kept met
  | boolGuard => exact unguardable_of_kept kept met
  | eagerBool => exact unguardable_of_kept kept met
  | typeGuard => rfl
  | eagerType => rfl

/-- What is kept of a parameter meets the requirements of a former with one parameter. -/
theorem malformed_wrap_of_kept {wrapper : Wrapper} {before inner : Form}
    (kept : inner = before ∨ inner.Lost) (rules : (Form.wrap wrapper before).malformed limit = []) :
    (Form.wrap wrapper inner).malformed limit = [] := by
  -- A wrapper requires one trait of its parameter or none, but for the guard of booleans, which requires two.
  cases wrapper with
  | boolGuard => exact unguardable_of_kept kept rules
  | _ =>
    simp only [malformed] at rules ⊢
    split at rules
    · rename_i needs
      rw [if_pos needs]
      exact unmet_of_kept kept rules
    · rename_i free
      rw [if_neg free]

/-- What is kept of two operands meets the requirements of a combinator. -/
theorem malformed_combine_of_kept {combinator : Combinator} {before before' left right : Form}
    (kept : left = before ∨ left.Lost) (kept' : right = before' ∨ right.Lost)
    (rules : (Form.combine combinator before before').malformed limit = []) :
    (Form.combine combinator left right).malformed limit = [] := by
  obtain ⟨first, second⟩ := List.append_eq_nil_iff.mp rules
  exact List.append_eq_nil_iff.mpr ⟨unmet_of_kept kept first, unmet_of_kept kept' second⟩

/-- What is kept of a condition and two branches meets the requirements of a choice. -/
theorem malformed_choice_of_kept {before before' before'' condition positive negative : Form}
    (kept : condition = before ∨ condition.Lost) (kept' : positive = before' ∨ positive.Lost)
    (kept'' : negative = before'' ∨ negative.Lost)
    (rules : (Form.choice before before' before'').malformed limit = []) :
    (Form.choice condition positive negative).malformed limit = [] := by
  obtain ⟨both, third⟩ := List.append_eq_nil_iff.mp rules
  obtain ⟨first, second⟩ := List.append_eq_nil_iff.mp both
  simp only [malformed, List.append_eq_nil_iff]
  exact ⟨⟨unmet_of_kept kept first, unmet_of_kept kept' second⟩, unmet_of_kept kept'' third⟩

/-- Two lots of holes are those of something that was lost, if both hold no others and one holds any. -/
theorem holes_append {holes holes' : List Hole} (all : ∀ hole ∈ holes, hole = .lost)
    (all' : ∀ hole ∈ holes', hole = .lost) (some : holes ≠ [] ∨ holes' ≠ []) :
    holes ++ holes' ≠ [] ∧ ∀ hole ∈ holes ++ holes', hole = .lost := by
  refine ⟨?_, List.forall_mem_append.mpr ⟨all, all'⟩⟩
  simpa only [ne_eq, List.append_eq_nil_iff, not_and_or] using some

/-- Two parts are lost together, if one of them is lost and the other is kept. -/
theorem lost_pair {before before' form form' : Form} (whole : before.holes = [])
    (whole' : before'.holes = []) (kept : form = before ∨ form.Lost)
    (kept' : form' = before' ∨ form'.Lost) (lost : form.Lost ∨ form'.Lost) :
    form.holes ++ form'.holes ≠ [] ∧ ∀ hole ∈ form.holes ++ form'.holes, hole = .lost :=
  holes_append (holes_of_kept whole kept) (holes_of_kept whole' kept') (lost.imp And.left And.left)

/-- The holes of forms without any before are those of what was lost. -/
theorem allHoles_of_forall₂ {before forms : List Form} (whole : Form.allHoles before = [])
    (kept : List.Forall₂ (fun before form => form = before ∨ form.Lost) before forms) :
    ∀ hole ∈ Form.allHoles forms, hole = .lost := by
  -- The induction is on the forms, each of which was kept or lost.
  induction kept with
  | nil => exact nofun
  | cons first _ ih =>
    obtain ⟨none, rest⟩ := List.append_eq_nil_iff.mp whole
    exact List.forall_mem_append.mpr ⟨holes_of_kept none first, ih rest⟩

/-- Where a form was lost among others, their holes are those of what was lost. -/
theorem LostAmong.allHoles {before forms : List Form} (whole : Form.allHoles before = [])
    (lost : LostAmong before forms) :
    Form.allHoles forms ≠ [] ∧ ∀ hole ∈ Form.allHoles forms, hole = .lost := by
  refine ⟨?_, allHoles_of_forall₂ whole lost.1⟩
  obtain ⟨form, member, some, _⟩ := lost.2
  rw [allHoles_eq, ne_eq, List.flatMap_eq_nil_iff]
  exact fun none => some (none form member)

end Form

/-- A node of a boolean list is lost with its value or with its tail. -/
theorem Form.lost_boolCons {value : Option Bool} {before : Bool} {tail tail' : Form}
    (whole : tail'.holes = []) (kept : value = some before ∨ value = none)
    (kept' : tail = tail' ∨ tail.Lost) (lost : value = none ∨ tail.Lost) :
    (Form.boolCons value tail).Lost := by
  refine Form.holes_append ?_ (Form.holes_of_kept whole kept') (lost.imp ?_ And.left)
  · rcases kept with rfl | rfl <;> simp
  · rintro rfl
    simp

/-- Nothing is projected out of what was lost, and nothing more is found in it. -/
theorem Tripped.projected {fault : Fault} {uses : List (Option Mention)} {before result : Form}
    {checked : Checked Form} {limit : Nat} {trait : Trait} {result? : Form → Option Form}
    (tripped : Tripped fault uses before Form.Lost checked) (settled : before.settled)
    (clean : before.projected limit trait (result? before) = .clean result) :
    Tripped fault uses result Form.Lost
      (checked >>= fun subject => subject.projected limit trait (result? subject)) := by
  -- What comes out of a projection depends on the subject alone, and is lost with it.
  have projects : result = if before.settled then (result? before).getD .lost else .lost :=
    (Checked.eq_clean_iff.mp clean).1.symm
  rw [projects]
  refine tripped.map₁ (fun subject : Form =>
    if subject.settled then (result? subject).getD .lost else .lost) (fun kept => ?_) fun lost => ?_
  · rcases kept with rfl | lost
    · rw [clean, projects]
    · simp [Form.projected, lost.unmet_eq_nil]
  · rw [lost.settled_eq]
    exact ⟨by simp [Form.lost, Form.holes], by simp [Form.lost, Form.holes]⟩

/-- What is kept of an integer expression has the signs of the expression. -/
theorem Arith.hasMinus_of_kept {before number : Arith Form}
    (kept : number = before ∨ number.hasMinus = before.hasMinus) :
    number.hasMinus = before.hasMinus := by
  rcases kept with rfl | same
  · rfl
  · exact same

/-- A faulty constant has no value, and its faults are reported. -/
theorem Constant.settle_faulty {checked : Checked (Constant Form)} (faulty : checked.faults ≠ []) :
    Constant.settle checked = ⟨none, checked.faults.map fun fault => ⟨.reported, fault⟩⟩ := by
  unfold settle
  split
  · rename_i none
    exact absurd none faulty
  · rfl

namespace Constant

section Failures

variable {type : Type} {reading : Reading type} {failure : Failure}

/-- The failures of some mentions are what those of them that fail come to. -/
theorem mem_failures_iff {mentions : List (Mention × type)} :
    failure ∈ failures reading mentions ↔
      ∃ mention ∈ mentions, reading.outcome mention.1 mention.2 = .error failure := by
  simp only [failures, List.mem_filterMap]
  refine exists_congr fun mention => and_congr_right fun _ => ?_
  cases reading.outcome mention.1 mention.2 <;> simp

/-- The mentions of a connective fail as those of its sides do, in whatever order. -/
theorem mem_failures_connect_iff {connective : Connective} {left right : Constant type} :
    failure ∈ failures reading (Constant.connect connective left right).mentions ↔
      failure ∈ failures reading left.mentions ∨ failure ∈ failures reading right.mentions := by
  have either {first second : List (Mention × type)} :
      failure ∈ failures reading (first ++ second) ↔
        failure ∈ failures reading first ∨ failure ∈ failures reading second := by
    rw [failures, List.filterMap_append, List.mem_append]
    rfl
  -- A connective that runs both sides may take the right one first, which changes the order alone.
  cases connective with
  | and => exact either
  | or => exact either
  | _ =>
    simp only [mentions]
    split
    · exact either.trans or_comm
    · exact either

/-- The mentions of a choice fail as those of its condition and its branches do, in whatever order. -/
theorem mem_failures_choose_iff {condition positive negative : Constant type} :
    failure ∈ failures reading (Constant.choose condition positive negative).mentions ↔
      failure ∈ failures reading condition.mentions ∨
        failure ∈ failures reading positive.mentions ∨
          failure ∈ failures reading negative.mentions := by
  simp only [mem_failures_iff, mentions, List.mem_append]
  split <;> simp only [List.mem_append, or_and_right, exists_or]
  exact or_congr_right or_comm

/-- No mention of a connective fails exactly if none of its sides do. -/
theorem failures_connect_eq_nil_iff {connective : Connective} {left right : Constant type} :
    failures reading (Constant.connect connective left right).mentions = [] ↔
      failures reading left.mentions = [] ∧ failures reading right.mentions = [] := by
  simp only [List.eq_nil_iff_forall_not_mem, mem_failures_connect_iff, not_or, forall_and]

/-- No mention of a choice fails exactly if none of its condition and its branches do. -/
theorem failures_choose_eq_nil_iff {condition positive negative : Constant type} :
    failures reading (Constant.choose condition positive negative).mentions = [] ↔
      failures reading condition.mentions = [] ∧ failures reading positive.mentions = [] ∧
        failures reading negative.mentions = [] := by
  simp only [List.eq_nil_iff_forall_not_mem, mem_failures_choose_iff, not_or, forall_and]

/-- The mentions of a constant that has a value do not fail. -/
theorem failures_eq_nil_of_asItem {constant : Constant type} {value : Bool}
    (evaluates : constant.asItem reading = .ok value) : failures reading constant.mentions = [] := by
  unfold asItem at evaluates
  split at evaluates
  · cases evaluates
  · assumption

/-- A constant with failing mentions fails as one of them does. -/
theorem exists_asItem_eq {constant : Constant type}
    (some : ∃ failure, failure ∈ failures reading constant.mentions) :
    ∃ failure ∈ failures reading constant.mentions, constant.asItem reading = .error failure := by
  -- The first failure decides, and it is one of them.
  unfold asItem
  cases found : failures reading constant.mentions with
  | nil => simp [found] at some
  | cons failure rest => exact ⟨failure, List.mem_cons_self .., rfl⟩

end Failures

/--
What a constant comes to in which guards may find a fault: as before where no guard stands in it, and where one
does, either the fault is found or a mention fails with it.
-/
structure Tripped (fault : Fault) (uses : List (Option Mention)) (before : Constant Form)
    (checked : Checked (Constant Form)) : Prop where
  faults : ∀ finding ∈ checked.findings, finding.fault = fault
  unused : uses = [] → checked = .clean before
  used : uses ≠ [] → checked.findings = [] →
    ∃ failure, failure ∈ failures Form.reading checked.value.mentions
  fails : checked.findings = [] →
    ∀ failure ∈ failures Form.reading checked.value.mentions, .failed failure = fault

namespace Tripped

variable {fault : Fault} {uses uses' uses'' : List (Option Mention)}
  {before before' before'' : Constant Form} {checked checked' checked'' : Checked (Constant Form)}

/-- Without guards nothing changes, and no mention fails. -/
theorem clean (quiet : failures Form.reading before.mentions = []) :
    Constant.Tripped fault [] before (.clean before) where
  faults := nofun
  unused _ := rfl
  used some := absurd rfl some
  fails _ failure member := by
    rw [Checked.clean, quiet] at member
    cases member

/-- A negation is tripped as its operand is. -/
theorem not (tripped : Constant.Tripped fault uses before checked) :
    Constant.Tripped fault uses (.not before) (do
      let operand ← checked
      return .not operand) where
  faults := by simpa using tripped.faults
  unused none := by rw [tripped.unused none]; rfl
  used some quiet := tripped.used some (by simpa using quiet)
  fails quiet := tripped.fails (by simpa using quiet)

/-- A connective is tripped if one of its sides is. -/
theorem connect (tripped : Constant.Tripped fault uses before checked)
    (tripped' : Constant.Tripped fault uses' before' checked') (connective : Connective) :
    Constant.Tripped fault (uses ++ uses') (.connect connective before before') (do
      let left ← checked
      let right ← checked'
      return .connect connective left right) where
  faults := by
    simp only [Checked.findings_bind, Checked.findings_pure, List.append_nil, List.forall_mem_append]
    exact ⟨tripped.faults, tripped'.faults⟩
  unused none := by
    obtain ⟨none, none'⟩ := List.append_eq_nil_iff.mp none
    rw [tripped.unused none, tripped'.unused none']
    rfl
  used some quiet := by
    simp only [Checked.findings_bind, Checked.findings_pure, List.append_nil,
      List.append_eq_nil_iff, ne_eq, not_and_or] at some quiet
    -- The side in which a guard stands has a failing mention, if no fault is found in it.
    rcases some with some | some
    · obtain ⟨failure, member⟩ := tripped.used some quiet.1
      exact ⟨failure, mem_failures_connect_iff.mpr (.inl member)⟩
    · obtain ⟨failure, member⟩ := tripped'.used some quiet.2
      exact ⟨failure, mem_failures_connect_iff.mpr (.inr member)⟩
  fails quiet failure member := by
    simp only [Checked.findings_bind, Checked.findings_pure, List.append_nil,
      List.append_eq_nil_iff] at quiet
    rcases mem_failures_connect_iff.mp member with member | member
    · exact tripped.fails quiet.1 failure member
    · exact tripped'.fails quiet.2 failure member

/-- A choice is tripped if its condition or one of its branches is. -/
theorem choose (tripped : Constant.Tripped fault uses before checked)
    (tripped' : Constant.Tripped fault uses' before' checked')
    (tripped'' : Constant.Tripped fault uses'' before'' checked'') :
    Constant.Tripped fault (uses ++ (uses' ++ uses'')) (.choose before before' before'') (do
      let condition ← checked
      let positive ← checked'
      let negative ← checked''
      return .choose condition positive negative) where
  faults := by
    simp only [Checked.findings_bind, Checked.findings_pure, List.append_nil, List.forall_mem_append]
    exact ⟨tripped.faults, tripped'.faults, tripped''.faults⟩
  unused none := by
    obtain ⟨none, others⟩ := List.append_eq_nil_iff.mp none
    obtain ⟨none', none''⟩ := List.append_eq_nil_iff.mp others
    rw [tripped.unused none, tripped'.unused none', tripped''.unused none'']
    rfl
  used some quiet := by
    simp only [Checked.findings_bind, Checked.findings_pure, List.append_nil,
      List.append_eq_nil_iff, ne_eq, not_and_or] at some quiet
    -- Also a branch that control flow never reaches has its mentions evaluated.
    rcases some with some | some | some
    · obtain ⟨failure, member⟩ := tripped.used some quiet.1
      exact ⟨failure, mem_failures_choose_iff.mpr (.inl member)⟩
    · obtain ⟨failure, member⟩ := tripped'.used some quiet.2.1
      exact ⟨failure, mem_failures_choose_iff.mpr (.inr (.inl member))⟩
    · obtain ⟨failure, member⟩ := tripped''.used some quiet.2.2
      exact ⟨failure, mem_failures_choose_iff.mpr (.inr (.inr member))⟩
  fails quiet failure member := by
    simp only [Checked.findings_bind, Checked.findings_pure, List.append_nil,
      List.append_eq_nil_iff] at quiet
    rcases mem_failures_choose_iff.mp member with member | member | member
    · exact tripped.fails quiet.1 failure member
    · exact tripped'.fails quiet.2.1 failure member
    · exact tripped''.fails quiet.2.2 failure member

/-- A comparison is tripped if a list in one of its sides is, and has no mentions that could fail. -/
theorem compare {number number' : Arith Form} {numbers numbers' : Checked (Arith Form)}
    (tripped : TypeLists.Tripped fault uses number (·.hasMinus = number.hasMinus) numbers)
    (tripped' : TypeLists.Tripped fault uses' number' (·.hasMinus = number'.hasMinus) numbers')
    (comparison : Comparison) (kind : IntKind)
    (signs : (if !kind.signed && (number.hasMinus || number'.hasMinus) then [Fault.unsignedMinus]
      else []) = []) :
    Constant.Tripped fault (uses ++ uses') (.compare comparison kind number number') (do
      let left ← numbers
      let right ← numbers'
      Checked.note .reported
        (if !kind.signed && (left.hasMinus || right.hasMinus) then [.unsignedMinus] else [])
      return .compare comparison kind left right) := by
  -- Signs are no types, so that a guard leaves them as they are.
  have sign := Arith.hasMinus_of_kept tripped.kept
  have sign' := Arith.hasMinus_of_kept tripped'.kept
  constructor
  · simp only [Checked.findings_bind, Checked.findings_pure, sign, sign', signs, Checked.note,
      List.map_nil, List.append_nil, List.forall_mem_append]
    exact ⟨tripped.faults, tripped'.faults⟩
  · intro none
    obtain ⟨none, none'⟩ := List.append_eq_nil_iff.mp none
    rw [tripped.unused none, tripped'.unused none']
    simpa only [Checked.bind_eq_clean_iff, Checked.note_eq_clean_iff] using
      ⟨_, rfl, _, rfl, (), signs, rfl⟩
  · intro some quiet
    simp only [Checked.findings_bind, List.append_eq_nil_iff, ne_eq, not_and_or] at some quiet
    rcases some with some | some
    · exact absurd quiet.1 (tripped.used some).1
    · exact absurd quiet.2.1 (tripped'.used some).1
  · intro _ failure member
    cases member

/-- A mention of a type in which a guard is tripped is found out with the type. -/
theorem mention {how : Mention} {form : Form} {limit : Nat} {named : Checked Form}
    (tripped : TypeLists.Tripped fault uses form Form.Lost named) (met : how.unmet limit form = [])
    (succeeds : failures Form.reading (Constant.mention how form).mentions = []) :
    Constant.Tripped fault uses (.mention how form) (do
      let subject ← named
      Checked.note .formation (how.unmet limit subject)
      return .mention how subject) := by
  have quiet := Form.unmet_mention_of_kept tripped.kept met
  constructor
  · simpa only [Checked.findings_bind, Checked.findings_pure, quiet, Checked.note, List.map_nil,
      List.append_nil] using tripped.faults
  · intro none
    rw [tripped.unused none]
    simpa using met
  · intro some findings
    simp only [Checked.findings_bind, List.append_eq_nil_iff] at findings
    exact absurd findings.1 (tripped.used some).1
  · intro findings failure member
    simp only [Checked.findings_bind, List.append_eq_nil_iff] at findings
    -- Nothing was found in the type, so that no guard stands in it and the mention is as before.
    have none : uses = [] := by_contra fun some => (tripped.used some).1 findings.1
    rw [tripped.unused none] at member
    exact absurd member (by simp [Checked.clean, succeeds])

/-- A mention by the name alone is tripped by what the name stands for. -/
theorem guard {how : Mention} {limit : Nat} {good bad : Form} (trips : bad.Trips limit fault)
    (guards : how = .boolGuard ∨ how = .eagerBool) :
    Constant.Tripped fault [some how] (.mention how good) (do
      Checked.note .formation (how.unmet limit bad)
      return .mention how bad) := by
  have rules : how.unmet limit bad = bad.unguardable limit := by
    rcases guards with rfl | rfl <;> rfl
  have outcome : Form.reading.outcome how bad = bad.value.map fun _ => true := by
    rcases guards with rfl | rfl <;> rfl
  rw [rules]
  -- Either the rules of the guard are broken, or it comes to evaluating what it guards.
  cases trips with
  | rule unmet => constructor <;> simp [unmet, Checked.note]
  | value met fails => constructor <;> simp [met, Checked.note, failures, mentions, outcome, fails, Except.map]

/-- A constant that a type carries has no value where a guard in it is tripped. -/
theorem settle_used (tripped : Constant.Tripped fault uses before checked) (some : uses ≠ []) :
    (Constant.settle checked).findings ≠ [] ∧ (Constant.settle checked).value = none ∧
      ∀ finding ∈ (Constant.settle checked).findings, finding.fault = fault := by
  by_cases quiet : checked.findings = []
  · -- Without a fault, a mention fails, and the constant with it.
    have clean : checked = .clean checked.value := Checked.eq_clean_iff.mpr ⟨rfl, quiet⟩
    obtain ⟨failure, member, fails⟩ := exists_asItem_eq (tripped.used some quiet)
    have same := tripped.fails quiet failure member
    rw [clean, settle_clean, fails]
    simpa using same
  · have faulty : checked.faults ≠ [] := fun none => quiet (Finding.reported_eq_nil_iff.mp none)
    rw [settle_faulty faulty]
    refine ⟨by simpa using faulty, rfl, ?_⟩
    intro finding member
    obtain ⟨reported, inside, rfl⟩ := List.mem_map.mp member
    obtain ⟨found, foundInside, same⟩ := Finding.exists_of_mem_reported inside
    exact same ▸ tripped.faults found foundInside

/-- A constant that a type carries keeps its value, or loses it to the one fault. -/
theorem settle (tripped : Constant.Tripped fault uses before checked) {value : Bool}
    (evaluates : before.asItem Form.reading = .ok value) :
    TypeLists.Tripped fault uses (some value) (· = none) (Constant.settle checked) := by
  -- Without a guard, the constant is evaluated as before.
  by_cases none : uses = []
  · subst none
    have same : Constant.settle checked = .clean (some value) := by
      rw [tripped.unused rfl, settle_clean, evaluates]
    rw [same]
    exact .clean _
  · obtain ⟨findings, lost, faults⟩ := tripped.settle_used none
    exact ⟨faults, fun none' => absurd none' none, fun _ => ⟨findings, lost⟩⟩

end Tripped

end Constant

end TypeLists
