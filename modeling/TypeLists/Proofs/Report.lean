import Mathlib.Data.List.Sort
import Mathlib.Data.String.Basic
import TypeLists.Proofs.Findings

/-! Reports: failures are reported by their distinct messages in increasing order, and faults are refused
without regard to their order or number. -/

namespace TypeLists

namespace Failure

/-- An inserted text is added to the others, unless it was one of them. -/
theorem mem_insertText_iff {text other : String} {texts : List String} :
    other ∈ insertText text texts ↔ other = text ∨ other ∈ texts := by
  induction texts with
  | nil => simp [insertText]
  | cons head rest ih =>
    rw [insertText]
    split_ifs with below same
    · exact List.mem_cons
    · rw [same, List.mem_cons, or_self_left]
    · rw [List.mem_cons, ih, List.mem_cons, or_left_comm]

/-- An insertion leaves the texts strictly increasing. -/
theorem pairwise_insertText {text : String} {texts : List String}
    (increasing : texts.Pairwise (· < ·)) : (insertText text texts).Pairwise (· < ·) := by
  induction texts with
  | nil => exact List.pairwise_singleton _ _
  | cons head rest ih =>
    obtain ⟨least, ordered⟩ := List.pairwise_cons.mp increasing
    rw [insertText]
    split_ifs with below same
    · -- What is below the first text is below all of them.
      refine List.pairwise_cons.mpr ⟨?_, increasing⟩
      intro other member
      rcases List.mem_cons.mp member with rfl | member
      · exact below
      · exact below.trans (least other member)
    · exact increasing
    · have above : head < text := lt_of_le_of_ne (not_lt.mp below) (Ne.symm same)
      refine List.pairwise_cons.mpr ⟨?_, ih ordered⟩
      intro other member
      rcases mem_insertText_iff.mp member with rfl | member
      · exact above
      · exact least other member

/-- The messages of some failures are those of each of them. -/
theorem mem_messages_iff {text : String} {failures : List Failure} :
    text ∈ messages failures ↔ ∃ failure ∈ failures, failure.message = text := by
  induction failures with
  | nil => simp [messages]
  | cons failure rest ih =>
    have step : messages (failure :: rest) = insertText failure.message (messages rest) := rfl
    rw [step, mem_insertText_iff, ih, List.exists_mem_cons_iff, eq_comm]

/-- Messages stand in strictly increasing order, so that none of them is repeated. -/
theorem pairwise_messages (failures : List Failure) : (messages failures).Pairwise (· < ·) := by
  induction failures with
  | nil => exact List.Pairwise.nil
  | cons failure rest ih =>
    show (insertText failure.message (messages rest)).Pairwise (· < ·)
    exact pairwise_insertText ih

/-- The messages depend only on which failures there are. -/
theorem messages_congr {failures failures' : List Failure}
    (same : ∀ failure, failure ∈ failures ↔ failure ∈ failures') :
    messages failures = messages failures' := by
  -- Strictly increasing lists with the same members are equal.
  apply (pairwise_messages failures).eq_of_mem_iff (pairwise_messages failures')
  intro text
  simp only [mem_messages_iff, same]

end Failure

/-- The refusal of some faults depends only on which faults there are. -/
theorem Refusal.ofFaults?_congr {faults faults' : List Fault}
    (same : ∀ fault, fault ∈ faults ↔ fault ∈ faults') : ofFaults? faults = ofFaults? faults' := by
  -- The failing constants are the same, and so is the report of them.
  have failing : ∀ failure, failure ∈ faults.filterMap Fault.failure? ↔
      failure ∈ faults'.filterMap Fault.failure? := by
    intro failure
    simp only [List.mem_filterMap, same]
  have reports := Failure.messages_congr failing
  unfold ofFaults?
  simp only [same]
  cases first : faults.filterMap Fault.failure? with
  | nil =>
    have second : faults'.filterMap Fault.failure? = [] := by
      rw [List.eq_nil_iff_forall_not_mem]
      intro failure member
      simpa [first] using (failing failure).mpr member
    rw [second]
  | cons failure rest =>
    cases second : faults'.filterMap Fault.failure? with
    | nil =>
      have lost := (failing failure).mp (first ▸ List.mem_cons_self ..)
      simp [second] at lost
    | cons failure' rest' =>
      rw [first, second] at reports
      simp only [Failure.report, reports]

/-- Failing constants alone are reported together. -/
theorem Refusal.ofFaults?_failed {failures : List Failure} (found : failures ≠ []) :
    ofFaults? (failures.map .failed) = some (.constant (Failure.report failures)) := by
  have failed : (failures.map Fault.failed).filterMap Fault.failure? = failures := by
    rw [List.filterMap_map]
    exact List.filterMap_some
  simp only [ofFaults?, List.mem_map, reduceCtorEq, and_false, exists_false, if_false, failed]

namespace Fault

variable {result : Type} {faults faults' : List Fault} {value : result} {refusal : Refusal}

/-- A program is refused for what its faults amount to. -/
theorem refuse_eq_error_iff :
    refuse faults value = .error refusal ↔ Refusal.ofFaults? faults = some refusal := by
  unfold refuse
  cases Refusal.ofFaults? faults <;> simp

/-- Faults that are the same as others are refused as those are. -/
theorem refuse_congr (same : ∀ fault, fault ∈ faults ↔ fault ∈ faults') (value : result) :
    refuse faults value = refuse faults' value := by
  rw [refuse, refuse, Refusal.ofFaults?_congr same]

/-- What follows on a value that is not refused does not wait for the value. -/
theorem refuse_bind {result' : Type} (faults : List Fault) (value : result)
    (next : result → Except Refusal result') :
    (do next (← refuse faults value)) = (do refuse faults (); next value) := by
  rw [refuse, refuse]
  cases Refusal.ofFaults? faults <;> rfl

/-- In front of some faults, it plays no part which of them are there already. -/
theorem refuse_append_congr {told : Fault → Prop} {background background' : List Fault}
    (same : ∀ fault, ¬ told fault → (fault ∈ background ↔ fault ∈ background'))
    (again : ∀ fault, told fault → fault ∈ faults) (value : result) :
    refuse (background ++ faults) value = refuse (background' ++ faults) value := by
  refine refuse_congr (fun fault => ?_) value
  rw [List.mem_append, List.mem_append]
  by_cases known : told fault
  · exact iff_of_true (.inr (again fault known)) (.inr (again fault known))
  · rw [same fault known]

end Fault

end TypeLists
