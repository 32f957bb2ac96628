import TypeLists.Proofs.Findings

/-! Refusals: a body in which one fault is found is refused for that fault, however often it is found. -/

namespace TypeLists

/-- Whatever is reported of a body was found in it. -/
theorem Finding.exists_of_mem_reported {findings : List Finding} {fault : Fault}
    (member : fault ∈ reported findings) : ∃ finding ∈ findings, finding.fault = fault := by
  have found {stages : List Stage} (member : fault ∈ faultsAt stages findings) :
      ∃ finding ∈ findings, finding.fault = fault := by
    obtain ⟨finding, kept, same⟩ := List.mem_map.mp member
    exact ⟨finding, (List.mem_filter.mp kept).1, same⟩
  -- What cuts off other faults is one of them itself.
  have cut {faults : List Fault} (member : fault ∈ cutOff faults) : fault ∈ faults := by
    unfold cutOff at member
    split at member
    · rename_i deep
      exact List.mem_singleton.mp member ▸ deep
    · exact member
  simp only [reported] at member
  split at member
  · exact found member
  · rcases List.mem_append.mp member with member | member
    · exact found member
    · exact found (cut member)

/-- A failure that occurs again is reported once. -/
theorem Failure.messages_replicate (count : Nat) (failure : Failure) :
    messages (List.replicate (count + 1) failure) = [failure.message] := by
  induction count with
  | zero => rfl
  | succ count ih =>
    have step : messages (List.replicate (count + 1 + 1) failure) =
        insertText failure.message (messages (List.replicate (count + 1) failure)) := rfl
    rw [step, ih, insertText, if_neg (String.lt_irrefl _), if_pos rfl]

/-- One fault amounts to one refusal, however often it is found. -/
theorem Refusal.ofFaults?_replicate (count : Nat) (fault : Fault) :
    ofFaults? (List.replicate (count + 1) fault) = ofFaults? [fault] := by
  cases fault with
  | failed failure =>
    -- Only the report of failing constants looks at more than which faults there are.
    have many : (List.replicate (count + 1) (Fault.failed failure)).filterMap Fault.failure? =
        failure :: List.replicate count failure :=
      List.filterMap_replicate_of_some rfl
    have report : Failure.report (failure :: List.replicate count failure) = Failure.report [failure] := by
      unfold Failure.report
      rw [← List.replicate_succ, Failure.messages_replicate]
      rfl
    simp only [ofFaults?, many, List.mem_replicate, reduceCtorEq, and_false, if_false]
    simpa [Fault.failure?] using report
  | tooDeep =>
    have none : (List.replicate (count + 1) Fault.tooDeep).filterMap Fault.failure? = [] :=
      List.filterMap_replicate_of_none rfl
    have none' : [Fault.tooDeep].filterMap Fault.failure? = [] := rfl
    simp [ofFaults?, List.mem_replicate, none, none']
  | _ => simp [ofFaults?, List.mem_replicate]

/-- A body in which one fault is found, and no other, is refused for it. -/
theorem Scope.conclude_eq_of_faults {scope : Scope} (quiet : scope.background = []) {result : Type}
    {checked : Checked result} {fault : Fault} (some : checked.findings ≠ [])
    (all : ∀ finding ∈ checked.findings, finding.fault = fault) (value : result) :
    scope.conclude checked = Fault.refuse [fault] value := by
  have found : checked.faults ≠ [] := fun none => some (Finding.reported_eq_nil_iff.mp none)
  have same : ∀ other ∈ checked.faults, other = fault := by
    intro other member
    obtain ⟨finding, inside, rfl⟩ := Finding.exists_of_mem_reported member
    exact all finding inside
  -- What is reported is the fault, a number of times.
  obtain ⟨count, length⟩ := Nat.exists_eq_succ_of_ne_zero (mt List.eq_nil_of_length_eq_zero found)
  have repeated : checked.faults = List.replicate (count + 1) fault :=
    List.eq_replicate_iff.mpr ⟨length, same⟩
  have refused : Refusal.ofFaults? [fault] ≠ none := by
    simp [Refusal.ofFaults?_eq_none_iff]
  rw [conclude, quiet, List.nil_append, repeated, Fault.refuse, Fault.refuse,
    Refusal.ofFaults?_replicate]
  cases refusal : Refusal.ofFaults? [fault] with
  | none => exact absurd refusal refused
  | some refusal => rfl

end TypeLists
