import TypeLists.Proofs.Normalization.Context

/-! Guards in the text of a constant: where a name marks only what guards guard, replacing what it stands for by
something that the guards reject leads to the one fault of that, wherever the guards stand. -/

namespace TypeLists

/-- The type is the name. -/
def Ty.isName (name : TypeName) : Ty → Bool
  | .named other => other = name
  | _ => false

theorem Ty.eq_of_isName {name : TypeName} {type : Ty} (marked : type.isName name) :
    type = .named name := by
  cases type with
  | named other => exact congrArg Ty.named (of_decide_eq_true marked)
  | _ => cases marked

mutual

/-- How a name is used in a type: by which mentions, or otherwise. -/
def Ty.uses (name : TypeName) : Ty → List (Option Mention)
  -- The constants in a type belong to it, and what another name stands for does not.
  | .atom _ => []
  | .wrap _ inner => inner.uses name
  | .cons head tail => head.uses name ++ tail.uses name
  | .combine _ left right => left.uses name ++ right.uses name
  | .choice condition positive negative =>
    condition.uses name ++ (positive.uses name ++ negative.uses name)
  | .tuple members => Ty.allUses name members
  | .function arguments result => Ty.allUses name arguments ++ result.uses name
  | .bool constant => constant.uses name
  | .boolCons constant tail => constant.uses name ++ tail.uses name
  | .list tokens => Ty.tokenUses name tokens
  | .boolList tokens => Constant.tokenUses name tokens
  | .output subject => subject.uses name
  | .select subject => subject.uses name
  | .named other => if other = name then [none] else []

/-- How a name is used in some types. -/
def Ty.allUses (name : TypeName) : List Ty → List (Option Mention)
  | [] => []
  | head :: rest => head.uses name ++ Ty.allUses name rest

/-- How a name is used in a type list. -/
def Ty.tokenUses (name : TypeName) : List (Token Ty) → List (Option Mention)
  | [] => []
  | .comma :: rest => Ty.tokenUses name rest
  | .element head :: rest => head.uses name ++ Ty.tokenUses name rest

/-- How a name is used in a constant. -/
def Constant.uses (name : TypeName) : Constant Ty → List (Option Mention)
  -- What is mentioned by its name alone is used by the mention.
  | .literal _ | .panic _ => []
  | .not operand => operand.uses name
  | .connect _ left right => left.uses name ++ right.uses name
  | .choose condition positive negative =>
    condition.uses name ++ (positive.uses name ++ negative.uses name)
  | .compare _ _ left right => left.uses name ++ right.uses name
  | .mention how subject => if subject.isName name then [some how] else subject.uses name

/-- How a name is used in an integer expression. -/
def Arith.uses (name : TypeName) : Arith Ty → List (Option Mention)
  | .literal _ _ | .least | .greatest => []
  | .negate operand => operand.uses name
  | .apply _ left right => left.uses name ++ right.uses name
  | .length _ list => list.uses name

/-- How a name is used in a boolean list. -/
def Constant.tokenUses (name : TypeName) : List (Token (Constant Ty)) → List (Option Mention)
  | [] => []
  | .comma :: rest => Constant.tokenUses name rest
  | .element head :: rest => head.uses name ++ Constant.tokenUses name rest

end

/-- Everything that is used is guarded as a boolean expression. -/
def Guarded (uses : List (Option Mention)) : Prop :=
  ∀ use ∈ uses, use = some .boolGuard ∨ use = some .eagerBool

@[simp] theorem guarded_append_iff {uses uses' : List (Option Mention)} :
    Guarded (uses ++ uses') ↔ Guarded uses ∧ Guarded uses' :=
  List.forall_mem_append

/-- The scope in which one name stands for a form. -/
def Scope.setting (scope : Scope) (name : TypeName) (form : Form) : Scope :=
  { scope with meaning := fun other => if other = name then .clean form else scope.meaning other }

@[simp] theorem Scope.limit_setting (scope : Scope) (name : TypeName) (form : Form) :
    (scope.setting name form).limit = scope.limit := rfl

/-- A scope stays well-formed if one name is made to stand for a well-formed form. -/
theorem Scope.WellFormed.setting {allowed : Hole → Prop} {scope : Scope}
    (names : scope.WellFormed allowed) (name : TypeName) {form : Form}
    (wellFormed : form.WellFormed allowed scope.limit) :
    (scope.setting name form).WellFormed allowed := by
  intro other meaning clean
  -- Only the one name has changed what it stands for.
  by_cases marked : other = name
  · simp only [Scope.setting, if_pos marked] at clean
    cases clean
    exact wellFormed
  · simp only [Scope.setting, if_neg marked] at clean
    exact names other meaning clean

/-- A filled context is normalized where its hole stands for the normal form of what fills it. -/
theorem Constant.normalize_fill {scope : Scope} {constant : Constant Ty} {name : TypeName} {type : Ty}
    {form : Form} (clean : type.normalize scope = .clean form) :
    (constant.fill name type).normalize scope = constant.normalize (scope.setting name form) := by
  rw [Constant.fill, Constant.normalize_substitute]
  congr 1
  simp only [Scope.giving, Scope.setting, Scope.mk.injEq, true_and, and_true]
  -- A name that is not the hole is filled with itself, and keeps what it stands for.
  funext other
  by_cases marked : other = name
  · rw [TypeName.replaced, if_pos marked, if_pos marked, clean]
  · rw [TypeName.replaced, if_neg marked, if_neg marked, Ty.normalize]

/-- What a guard finds in a form: a broken rule, or a value that fails. -/
inductive Form.Trips (limit : Nat) (form : Form) : Fault → Prop where
  | rule {fault : Fault} (unmet : form.unguardable limit = [fault]) : Trips limit form fault
  | value {failure : Failure} (met : form.unguardable limit = [])
    (fails : form.value = .error failure) : Trips limit form (.failed failure)

/--
What a part comes to in which guards may find a fault: as before where no guard stands in it, and lost to the
one fault where one does.
-/
structure Tripped {result : Type} (fault : Fault) (uses : List (Option Mention)) (before : result)
    (lost : result → Prop) (checked : Checked result) : Prop where
  faults : ∀ finding ∈ checked.findings, finding.fault = fault
  unused : uses = [] → checked = .clean before
  used : uses ≠ [] → checked.findings ≠ [] ∧ lost checked.value

namespace Tripped

variable {first second third result : Type} {fault : Fault} {uses uses' uses'' : List (Option Mention)}
  {before : first} {before' : second} {before'' : third}
  {lost : first → Prop} {lost' : second → Prop} {lost'' : third → Prop}
  {checked : Checked first} {checked' : Checked second} {checked'' : Checked third}

/-- What was lost is known to be lost, and everything else is as before. -/
theorem kept (tripped : Tripped fault uses before lost checked) :
    checked.value = before ∨ lost checked.value := by
  by_cases unused : uses = []
  · exact .inl (congrArg Checked.value (tripped.unused unused))
  · exact .inr (tripped.used unused).2

/-- Without uses and guards nothing changes. -/
theorem clean (value : first) : Tripped fault [] value lost (.clean value) :=
  ⟨nofun, fun _ => rfl, fun used => absurd rfl used⟩

/-- A part leaves what is made of it lost, if it is lost itself, and adds nothing to its findings. -/
theorem map₁ (tripped : Tripped fault uses before lost checked) (make : first → result)
    {next : first → Checked result} {lostResult : result → Prop}
    (quiet : ∀ {value}, value = before ∨ lost value → next value = .clean (make value))
    (spoils : ∀ {value}, lost value → lostResult (make value)) :
    Tripped fault uses (make before) lostResult (checked >>= next) where
  -- What is made of the part adds no findings, whether the part was kept or lost.
  faults := by
    rw [Checked.findings_bind, quiet tripped.kept]
    simpa only [Checked.clean, List.append_nil] using tripped.faults
  unused none := by
    rw [tripped.unused none]
    exact quiet (.inl rfl)
  used some := by
    rw [Checked.findings_bind, Checked.value_bind, quiet tripped.kept]
    simpa only [Checked.clean, List.append_nil] using
      And.intro (tripped.used some).1 (spoils (tripped.used some).2)

/-- Two parts leave what is made of them lost, if one of them is. -/
theorem map₂ (tripped : Tripped fault uses before lost checked)
    (tripped' : Tripped fault uses' before' lost' checked') (make : first → second → result)
    {next : first → second → Checked result} {lostResult : result → Prop}
    (quiet : ∀ {value value'}, value = before ∨ lost value → value' = before' ∨ lost' value' →
      next value value' = .clean (make value value'))
    (spoils : ∀ {value value'}, value = before ∨ lost value → value' = before' ∨ lost' value' →
      lost value ∨ lost' value' → lostResult (make value value')) :
    Tripped fault (uses ++ uses') (make before before') lostResult
      (checked >>= fun value => checked' >>= fun value' => next value value') where
  -- The findings are those of the two parts, and each part is kept or lost by itself.
  faults := by
    simp only [Checked.findings_bind, quiet tripped.kept tripped'.kept, Checked.clean,
      List.append_nil, List.forall_mem_append]
    exact ⟨tripped.faults, tripped'.faults⟩
  unused none := by
    obtain ⟨none, none'⟩ := List.append_eq_nil_iff.mp none
    rw [tripped.unused none, tripped'.unused none']
    exact quiet (.inl rfl) (.inl rfl)
  used some := by
    simp only [Checked.findings_bind, Checked.value_bind, quiet tripped.kept tripped'.kept,
      Checked.clean, List.append_nil, ne_eq, List.append_eq_nil_iff, not_and_or] at some ⊢
    -- A use in either part is enough for a fault and for the loss of the whole.
    rcases some with some | some
    · exact ⟨.inl (tripped.used some).1,
        spoils tripped.kept tripped'.kept (.inl (tripped.used some).2)⟩
    · exact ⟨.inr (tripped'.used some).1,
        spoils tripped.kept tripped'.kept (.inr (tripped'.used some).2)⟩

/-- Three parts leave what is made of them lost, if one of them is. -/
theorem map₃ (tripped : Tripped fault uses before lost checked)
    (tripped' : Tripped fault uses' before' lost' checked')
    (tripped'' : Tripped fault uses'' before'' lost'' checked'')
    (make : first → second → third → result) {next : first → second → third → Checked result}
    {lostResult : result → Prop}
    (quiet : ∀ {value value' value''}, value = before ∨ lost value → value' = before' ∨ lost' value' →
      value'' = before'' ∨ lost'' value'' → next value value' value'' = .clean (make value value' value''))
    (spoils : ∀ {value value' value''}, value = before ∨ lost value →
      value' = before' ∨ lost' value' → value'' = before'' ∨ lost'' value'' →
        lost value ∨ lost' value' ∨ lost'' value'' → lostResult (make value value' value'')) :
    Tripped fault (uses ++ (uses' ++ uses'')) (make before before' before'') lostResult
      (checked >>= fun value => checked' >>= fun value' => checked'' >>= fun value'' =>
        next value value' value'') where
  -- As for two parts: each of the three is kept or lost by itself.
  faults := by
    simp only [Checked.findings_bind, quiet tripped.kept tripped'.kept tripped''.kept, Checked.clean,
      List.append_nil, List.forall_mem_append]
    exact ⟨tripped.faults, tripped'.faults, tripped''.faults⟩
  unused none := by
    obtain ⟨none, others⟩ := List.append_eq_nil_iff.mp none
    obtain ⟨none', none''⟩ := List.append_eq_nil_iff.mp others
    rw [tripped.unused none, tripped'.unused none', tripped''.unused none'']
    exact quiet (.inl rfl) (.inl rfl) (.inl rfl)
  used some := by
    simp only [Checked.findings_bind, Checked.value_bind,
      quiet tripped.kept tripped'.kept tripped''.kept, Checked.clean, List.append_nil, ne_eq,
      List.append_eq_nil_iff, not_and_or] at some ⊢
    rcases some with some | some | some
    · exact ⟨.inl (tripped.used some).1,
        spoils tripped.kept tripped'.kept tripped''.kept (.inl (tripped.used some).2)⟩
    · exact ⟨.inr (.inl (tripped'.used some).1),
        spoils tripped.kept tripped'.kept tripped''.kept (.inr (.inl (tripped'.used some).2))⟩
    · exact ⟨.inr (.inr (tripped''.used some).1),
        spoils tripped.kept tripped'.kept tripped''.kept (.inr (.inr (tripped''.used some).2))⟩

end Tripped

namespace Form

/-- Something in the form was lost to a fault, and nothing else in it is unknown. -/
def Lost (form : Form) : Prop :=
  form.holes ≠ [] ∧ ∀ hole ∈ form.holes, hole = .lost

theorem Lost.settled_eq {form : Form} (lost : form.Lost) : form.settled = false := by
  -- One lost part is enough to leave everything around it unknown.
  obtain ⟨some, all⟩ := lost
  obtain ⟨hole, member⟩ := List.exists_mem_of_ne_nil _ some
  simp only [settled, List.all_eq_false]
  exact ⟨hole, member, by simp [all hole member]⟩

/-- Nothing is required of a form in which something was lost. -/
theorem Lost.unmet_eq_nil {form : Form} (lost : form.Lost) (limit : Nat) (trait : Trait) :
    form.unmet limit trait = [] := by
  simp [unmet, lost.settled_eq]

/-- A requirement that was met before is met by what was kept. -/
theorem unmet_of_kept {limit : Nat} {trait : Trait} {before form : Form}
    (kept : form = before ∨ form.Lost) (met : before.unmet limit trait = []) :
    form.unmet limit trait = [] := by
  rcases kept with rfl | lost
  · exact met
  · exact lost.unmet_eq_nil limit trait

/-- What is kept of a form without holes has none but those of what was lost. -/
theorem holes_of_kept {before form : Form} (whole : before.holes = [])
    (kept : form = before ∨ form.Lost) : ∀ hole ∈ form.holes, hole = .lost := by
  rcases kept with rfl | lost
  · simp [whole]
  · exact lost.2

theorem closed_of_kept {before form : Form} (whole : before.holes = [])
    (kept : form = before ∨ form.Lost) : form.closed := by
  simpa [closed] using holes_of_kept whole kept

/-- The forms are as before, but for at least one that was lost. -/
def LostAmong (before forms : List Form) : Prop :=
  List.Forall₂ (fun before form => form = before ∨ form.Lost) before forms ∧ ∃ form ∈ forms, form.Lost

/-- Requirements that were met by some forms before are met by what was kept. -/
theorem unmet_of_forall₂ {limit : Nat} {trait : Trait} {before forms : List Form}
    (kept : List.Forall₂ (fun before form => form = before ∨ form.Lost) before forms)
    (met : before.dropLast.flatMap (unmet limit trait) = []) :
    forms.dropLast.flatMap (unmet limit trait) = [] := by
  -- The induction is on the forms, of which the last one has nothing required of it.
  induction kept with
  | nil => rfl
  | cons first rest ih =>
    cases rest with
    | nil => rfl
    | cons next rest =>
      simp only [List.dropLast_cons_cons, List.flatMap_cons, List.append_eq_nil_iff] at met ih ⊢
      exact ⟨unmet_of_kept first met.1, ih met.2⟩

/-- What is kept of some forms: all of them, or all but some that were lost. -/
theorem forall₂_of_kept {before forms : List Form} (kept : forms = before ∨ LostAmong before forms) :
    List.Forall₂ (fun before form => form = before ∨ form.Lost) before forms := by
  rcases kept with rfl | lost
  · exact List.forall₂_same.mpr fun form _ => .inl rfl
  · exact lost.1

end Form

end TypeLists
