import TypeLists.Proofs.Constant.Guards

/-! Faults that are reported while a type is checked: they are found again in every type and in every constant
that uses a name behind which they lie. -/

namespace TypeLists

namespace Finding

@[simp] theorem mem_faultsAt_reported_iff {findings : List Finding} {fault : Fault} :
    fault ∈ faultsAt [.reported] findings ↔ ⟨.reported, fault⟩ ∈ findings := by
  simp only [faultsAt, List.mem_map, List.mem_filter, List.mem_singleton, decide_eq_true_eq]
  constructor
  · rintro ⟨⟨_, _⟩, ⟨member, rfl⟩, rfl⟩
    exact member
  · intro member
    exact ⟨_, ⟨member, rfl⟩, rfl⟩

/-- A fault that is found while a body is checked is reported of the body, whatever else is found. -/
theorem mem_reported_of_mem {findings : List Finding} {fault : Fault}
    (member : ⟨.reported, fault⟩ ∈ findings) : fault ∈ reported findings := by
  have early : fault ∈ faultsAt [.reported, .evaluation] findings := by
    simp only [faultsAt, List.mem_map, List.mem_filter]
    exact ⟨_, ⟨member, by simp⟩, rfl⟩
  have inside := List.mem_append_left (cutOff (faultsAt [.projection, .formation] findings)) early
  rw [reported, if_neg (by simpa using List.ne_nil_of_mem inside)]
  exact inside

@[simp] theorem faultsAt_append (stages : List Stage) (findings findings' : List Finding) :
    faultsAt stages (findings ++ findings') = faultsAt stages findings ++ faultsAt stages findings' := by
  simp only [faultsAt, List.filter_append, List.map_append]

@[simp] theorem faultsAt_nil (stages : List Stage) : faultsAt stages [] = [] := rfl

/-- What comes up at another stage is not among the faults of some stages. -/
theorem faultsAt_note {stage : Stage} {stages : List Stage} (other : stage ∉ stages) (faults : List Fault) :
    faultsAt stages (Checked.note stage faults).findings = [] := by
  rw [faultsAt_eq_nil_iff]
  intro finding member
  obtain ⟨fault, _, rfl⟩ := List.mem_map.mp member
  exact other

/-- A constant that a type carries reports all its faults. -/
@[simp] theorem faultsAt_settle (checked : Checked (Constant Form)) :
    faultsAt [.reported] (Constant.settle checked).findings = checked.faults := by
  rw [Constant.settle]
  split
  · rename_i quiet
    rw [quiet]
    split <;> rfl
  · simp [faultsAt, List.filter_map, Function.comp_def]

@[simp] theorem faultsAt_formed (limit : Nat) (form : Form) :
    faultsAt [.reported] (Form.formed limit form).findings = [] := by
  rw [Form.formed, Checked.findings_bind, faultsAt_append, faultsAt_note (by decide)]
  rfl

@[simp] theorem faultsAt_wrapped (scope : Scope) (wrapper : Wrapper) (inner : Form) :
    faultsAt [.reported] (Form.wrapped scope wrapper inner).findings = [] := by
  rw [Form.wrapped, Checked.findings_bind, faultsAt_append, faultsAt_note (by decide), faultsAt_formed]
  rfl

@[simp] theorem faultsAt_projected (limit : Nat) (trait : Trait) (result? : Option Form) (subject : Form) :
    faultsAt [.reported] (subject.projected limit trait result?).findings = [] := by
  rw [Form.projected, Checked.findings_bind, faultsAt_append, faultsAt_note (by decide)]
  rfl

end Finding

/-- Every fault of a constant that a type carries is reported of the type. -/
theorem Constant.mem_findings_settle {checked : Checked (Constant Form)} {fault : Fault}
    (member : ⟨.reported, fault⟩ ∈ checked.findings) :
    ⟨.reported, fault⟩ ∈ (Constant.settle checked).findings := by
  rw [← Finding.mem_faultsAt_reported_iff, Finding.faultsAt_settle]
  exact Finding.mem_reported_of_mem member

section Used

variable {scope : Scope} {name : TypeName} {fault : Fault}

/-- What is used in one of two parts together is used in the first or in the second. -/
theorem used_append {uses uses' : List (Option Mention)} (used : uses ++ uses' ≠ []) :
    uses ≠ [] ∨ uses' ≠ [] := by
  by_cases first : uses = []
  · subst first
    exact .inr used
  · exact .inl first

mutual

/-- What is wrong with the constants behind a name is found in every type that uses the name. -/
theorem Ty.mem_findings_of_used (found : ⟨.reported, fault⟩ ∈ (scope.meaning name).findings) :
    ∀ type : Ty, type.uses name ≠ [] → ⟨.reported, fault⟩ ∈ (type.normalize scope).findings
  -- Findings are handed on through all formers, and through constants as their faults.
  | .atom _, used => absurd rfl used
  | .wrap _ inner, used => List.mem_append_left _ (inner.mem_findings_of_used found used)
  | .cons head tail, used => by
    rw [Ty.normalize]
    rcases used_append used with first | second
    · exact List.mem_append_left _ (head.mem_findings_of_used found first)
    · exact List.mem_append_right _ (List.mem_append_left _ (tail.mem_findings_of_used found second))
  | .combine _ left right, used => by
    rw [Ty.normalize]
    rcases used_append used with first | second
    · exact List.mem_append_left _ (left.mem_findings_of_used found first)
    · exact List.mem_append_right _ (List.mem_append_left _ (right.mem_findings_of_used found second))
  | .choice condition positive negative, used => by
    rw [Ty.normalize]
    simp only [Checked.findings_bind, List.mem_append]
    rcases used_append used with first | others
    · exact .inl (condition.mem_findings_of_used found first)
    · rcases used_append others with second | third
      · exact .inr (.inl (positive.mem_findings_of_used found second))
      · exact .inr (.inr (.inl (negative.mem_findings_of_used found third)))
  | .tuple members, used => List.mem_append_left _ (Ty.mem_findings_of_allUsed found members used)
  | .function arguments result, used => by
    rw [Ty.normalize]
    rcases used_append used with first | second
    · exact List.mem_append_left _ (Ty.mem_findings_of_allUsed found arguments first)
    · exact List.mem_append_right _ (List.mem_append_left _ (result.mem_findings_of_used found second))
  | .bool constant, used => by
    rw [Ty.normalize]
    exact List.mem_append_left _
      (Constant.mem_findings_settle (constant.mem_findings_of_used found used))
  | .boolCons constant tail, used => by
    rw [Ty.normalize]
    rcases used_append used with first | second
    · exact List.mem_append_left _
        (Constant.mem_findings_settle (constant.mem_findings_of_used found first))
    · exact List.mem_append_right _ (List.mem_append_left _ (tail.mem_findings_of_used found second))
  | .list tokens, used => by
    rw [Ty.normalize]
    exact Ty.mem_findings_of_tokenUsed found tokens used
  | .boolList tokens, used => by
    rw [Ty.normalize]
    exact Constant.mem_findings_of_tokenUsed found tokens used
  | .output subject, used => List.mem_append_left _ (subject.mem_findings_of_used found used)
  | .select subject, used => List.mem_append_left _ (subject.mem_findings_of_used found used)
  | .named other, used => by
    rw [Ty.normalize]
    by_cases same : other = name
    · subst same
      exact found
    · exact absurd (if_neg same) used

theorem Ty.mem_findings_of_allUsed (found : ⟨.reported, fault⟩ ∈ (scope.meaning name).findings) :
    ∀ types : List Ty, Ty.allUses name types ≠ [] →
      ⟨.reported, fault⟩ ∈ (Ty.normalizeAll scope types).findings
  | [], used => absurd rfl used
  | head :: rest, used => by
    rw [Ty.normalizeAll]
    rcases used_append used with first | others
    · exact List.mem_append_left _ (head.mem_findings_of_used found first)
    · exact List.mem_append_right _
        (List.mem_append_left _ (Ty.mem_findings_of_allUsed found rest others))

theorem Ty.mem_findings_of_tokenUsed (found : ⟨.reported, fault⟩ ∈ (scope.meaning name).findings) :
    ∀ tokens : List (Token Ty), Ty.tokenUses name tokens ≠ [] →
      ⟨.reported, fault⟩ ∈ (Ty.normalizeTokens scope tokens).findings
  | [], used => absurd rfl used
  | .comma :: rest, used => by
    rw [Ty.normalizeTokens]
    exact Ty.mem_findings_of_tokenUsed found rest used
  | .element head :: rest, used => by
    rw [Ty.normalizeTokens]
    rcases used_append used with first | others
    · exact List.mem_append_left _ (head.mem_findings_of_used found first)
    · exact List.mem_append_right _
        (List.mem_append_left _ (Ty.mem_findings_of_tokenUsed found rest others))

/-- What is wrong with the constants behind a name is found in every constant that uses the name. -/
theorem Constant.mem_findings_of_used (found : ⟨.reported, fault⟩ ∈ (scope.meaning name).findings) :
    ∀ constant : Constant Ty, constant.uses name ≠ [] →
      ⟨.reported, fault⟩ ∈ (constant.normalize scope).findings
  | .literal _, used => absurd rfl used
  | .panic _, used => absurd rfl used
  | .not operand, used => List.mem_append_left _ (operand.mem_findings_of_used found used)
  | .connect _ left right, used => by
    rw [Constant.normalize]
    rcases used_append used with first | second
    · exact List.mem_append_left _ (left.mem_findings_of_used found first)
    · exact List.mem_append_right _ (List.mem_append_left _ (right.mem_findings_of_used found second))
  | .choose condition positive negative, used => by
    rw [Constant.normalize]
    simp only [Checked.findings_bind, List.mem_append]
    rcases used_append used with first | others
    · exact .inl (condition.mem_findings_of_used found first)
    · rcases used_append others with second | third
      · exact .inr (.inl (positive.mem_findings_of_used found second))
      · exact .inr (.inr (.inl (negative.mem_findings_of_used found third)))
  | .compare _ _ left right, used => by
    rw [Constant.normalize]
    rcases used_append used with first | second
    · exact List.mem_append_left _ (left.mem_findings_of_used found first)
    · exact List.mem_append_right _ (List.mem_append_left _ (right.mem_findings_of_used found second))
  | .mention how subject, used => by
    rw [Constant.normalize]
    refine List.mem_append_left _ ?_
    by_cases marked : subject.isName name
    · -- The mention uses the name itself.
      cases Ty.eq_of_isName marked
      rw [Ty.normalize]
      exact found
    · exact subject.mem_findings_of_used found (by rwa [Constant.uses, if_neg marked] at used)

theorem Arith.mem_findings_of_used (found : ⟨.reported, fault⟩ ∈ (scope.meaning name).findings) :
    ∀ number : Arith Ty, number.uses name ≠ [] →
      ⟨.reported, fault⟩ ∈ (number.normalize scope).findings
  | .literal _ _, used => absurd rfl used
  | .least, used => absurd rfl used
  | .greatest, used => absurd rfl used
  | .negate operand, used => List.mem_append_left _ (operand.mem_findings_of_used found used)
  | .apply _ left right, used => by
    rw [Arith.normalize]
    rcases used_append used with first | second
    · exact List.mem_append_left _ (left.mem_findings_of_used found first)
    · exact List.mem_append_right _ (List.mem_append_left _ (right.mem_findings_of_used found second))
  | .length _ list, used => List.mem_append_left _ (list.mem_findings_of_used found used)

theorem Constant.mem_findings_of_tokenUsed
    (found : ⟨.reported, fault⟩ ∈ (scope.meaning name).findings) :
    ∀ tokens : List (Token (Constant Ty)), Constant.tokenUses name tokens ≠ [] →
      ⟨.reported, fault⟩ ∈ (Constant.normalizeTokens scope tokens).findings
  | [], used => absurd rfl used
  | .comma :: rest, used => by
    rw [Constant.normalizeTokens]
    exact Constant.mem_findings_of_tokenUsed found rest used
  | .element head :: rest, used => by
    rw [Constant.normalizeTokens]
    rcases used_append used with first | others
    · exact List.mem_append_left _
        (Constant.mem_findings_settle (head.mem_findings_of_used found first))
    · exact List.mem_append_right _
        (List.mem_append_left _ (Constant.mem_findings_of_tokenUsed found rest others))

end

end Used

end TypeLists
