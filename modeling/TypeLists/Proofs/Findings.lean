import Mathlib.Tactic.SplitIfs
import TypeLists.Answer

/-! A program is accepted exactly where nothing is found in it: no finding is ever lost on the way from
a body to its answer. -/

namespace TypeLists

variable {source result : Type}

/-- No faults come up at some stages exactly if no finding was made at them. -/
theorem Finding.faultsAt_eq_nil_iff {stages : List Stage} {findings : List Finding} :
    faultsAt stages findings = [] ↔ ∀ finding ∈ findings, finding.stage ∉ stages := by
  -- The faults are those of the findings that the filter keeps.
  simp only [faultsAt, List.map_eq_nil_iff, List.filter_eq_nil_iff, decide_eq_true_eq]

/-- Cutting faults off never leaves a body without faults that had some. -/
theorem Finding.cutOff_eq_nil_iff {faults : List Fault} : cutOff faults = [] ↔ faults = [] := by
  -- Either the one fault that cuts off is left, or all of them are.
  unfold cutOff
  split
  · rename_i member
    constructor
    · intro empty
      cases empty
    · intro empty
      simp [empty] at member
  · rfl

/-- Nothing is reported of a body exactly if nothing was found in it. -/
theorem Finding.reported_eq_nil_iff {findings : List Finding} :
    reported findings = [] ↔ findings = [] := by
  constructor
  · intro silent
    simp only [reported, List.isEmpty_iff] at silent
    split at silent
    · -- Each of the five stages is one of those at which nothing came up.
      rename_i early
      simp only [List.append_eq_nil_iff, cutOff_eq_nil_iff, faultsAt_eq_nil_iff] at early silent
      apply List.eq_nil_iff_forall_not_mem.mpr
      intro finding member
      have first := early.1 finding member
      have second := early.2 finding member
      have third := silent finding member
      cases stage : finding.stage <;> simp [stage] at first second third
    · contradiction
  · intro empty
    rw [empty]
    rfl

/-- A refusal is found for every list of faults but the empty one. -/
theorem Refusal.ofFaults?_eq_none_iff {faults : List Fault} :
    ofFaults? faults = none ↔ faults = [] := by
  constructor
  · intro accepted
    apply List.eq_nil_iff_forall_not_mem.mpr
    intro fault member
    unfold ofFaults? at accepted
    cases failures : faults.filterMap Fault.failure? with
    | cons failure rest =>
      -- A failing constant is refused at the latest after all broken rules.
      simp only [failures] at accepted
      split_ifs at accepted
    | nil =>
      -- Without failing constants, only too deep a proof is left, and it is refused by itself.
      simp only [failures] at accepted
      split_ifs at accepted
      have silent := List.filterMap_eq_nil_iff.mp failures fault member
      cases fault with
      | failed failure => simp [Fault.failure?] at silent
      | _ => contradiction
  · intro empty
    rw [empty]
    rfl

/-- A value is given exactly where there is no fault. -/
theorem Fault.refuse_eq_ok_iff {faults : List Fault} {value given : result} :
    Fault.refuse faults value = .ok given ↔ faults = [] ∧ given = value := by
  -- Only an empty list of faults amounts to no refusal.
  rw [← Refusal.ofFaults?_eq_none_iff]
  unfold Fault.refuse
  cases Refusal.ofFaults? faults with
  | none => simp [eq_comm]
  | some refusal => simp

namespace Checked

/-- A checked value is clean exactly if its list of findings is empty. -/
theorem eq_clean_iff {checked : Checked source} {value : source} :
    checked = clean value ↔ checked.value = value ∧ checked.findings = [] := by
  -- A checked value is nothing but its value and its findings.
  cases checked
  simp [clean]

@[simp] theorem pure_eq_clean_iff {value other : source} :
    (pure value : Checked source) = clean other ↔ value = other := by
  simp [eq_clean_iff]

/-- A sequence is clean exactly if both of its parts are. -/
@[simp] theorem bind_eq_clean_iff {first : Checked source} {next : source → Checked result}
    {value : result} :
    (first >>= next) = clean value ↔ ∃ middle, first = clean middle ∧ next middle = clean value := by
  -- The findings of the sequence are those of the two parts together.
  simp only [eq_clean_iff, value_bind, findings_bind, List.append_eq_nil_iff]
  constructor
  · intro parts
    obtain ⟨last, none, others⟩ := parts
    exact ⟨first.value, ⟨rfl, none⟩, last, others⟩
  · intro parts
    obtain ⟨middle, ⟨rfl, none⟩, last, others⟩ := parts
    exact ⟨last, none, others⟩

@[simp] theorem note_eq_clean_iff {stage : Stage} {faults : List Fault} {value : Unit} :
    note stage faults = clean value ↔ faults = [] := by
  simp [eq_clean_iff, note]

/-- A body has no faults exactly if it is clean. -/
theorem faults_eq_nil_iff {checked : Checked source} :
    checked.faults = [] ↔ checked = clean checked.value := by
  simp [eq_clean_iff, faults, Finding.reported_eq_nil_iff]

end Checked

/-- A body gives its value exactly where neither it nor the background of its scope has a fault. -/
theorem Scope.conclude_eq_ok_iff {scope : Scope} {checked : Checked result} {value : result} :
    scope.conclude checked = .ok value ↔ scope.background = [] ∧ checked = .clean value := by
  -- The faults of the background and those of the body are judged together.
  simp only [conclude, Fault.refuse_eq_ok_iff, List.append_eq_nil_iff, Checked.faults_eq_nil_iff]
  constructor
  · intro parts
    obtain ⟨⟨quiet, clean⟩, rfl⟩ := parts
    exact ⟨quiet, clean⟩
  · intro parts
    obtain ⟨quiet, rfl⟩ := parts
    exact ⟨⟨quiet, rfl⟩, rfl⟩

end TypeLists
