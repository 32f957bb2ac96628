import TypeLists.Proofs.Form.Operands
import TypeLists.Proofs.Query.Truth

/-! Guards are never live operands: a type is a boolean expression exactly if all operands that its value depends
on are made as boolean expressions are, which guards are not. -/

namespace TypeLists

namespace Form

/-- What is wrong with a form that is no boolean expression, or is none within the limit. -/
def operandFault (limit : Nat) (form : Form) : Fault :=
  -- The search ends at the limit, whether or not there is something to find behind it.
  if limit < form.formulaDepth then .tooDeep else .illTyped

/-- A form without holes is required to be a boolean expression within the limit, with one fault otherwise. -/
theorem unmet_boolExpr_eq {limit : Nat} {form : Form} (settled : form.settled) :
    form.unmet limit .boolExpr =
      if form.formulaDepth ≤ limit ∧ form.implements .boolExpr then [] else [form.operandFault limit] := by
  by_cases shallow : form.formulaDepth ≤ limit
  · have reached : ¬ limit < form.formulaDepth := Nat.not_lt.mpr shallow
    by_cases found : form.implements .boolExpr <;>
      simp [unmet, settled, proofDepth, operandFault, shortfall, shallow, reached, found]
  · have deep : limit < form.formulaDepth := Nat.not_le.mp shallow
    simp [unmet, settled, proofDepth, operandFault, shallow, deep]

/-- The search for a formula looks at the form itself at least. -/
theorem formulaDepth_pos (form : Form) : 0 < form.formulaDepth := by
  fun_cases formulaDepth form <;> omega

/-- A guard asks an expression with a guard in a live position for what it does not have. -/
theorem Guard.cutOff_unguardable {guard : Form} (isGuard : guard.Guard) (context : List LiveFrame)
    {limit : Nat} (faulty : (plug context guard).unmet limit .boolExpr =
      [(plug context guard).operandFault limit]) :
    Finding.cutOff ((plug context guard).unguardable limit) =
      [(plug context guard).operandFault limit] := by
  rw [unguardable, faulty]
  by_cases deep : limit < (plug context guard).formulaDepth
  · -- Too deep a search is reported alone, whatever else is wrong.
    simp [operandFault, deep, Finding.cutOff]
  · -- Otherwise the limit leaves room to find out that the expression is sized.
    obtain ⟨sized, depth⟩ := isGuard.sized_plug context
    have positive : ¬ limit < 1 := by
      have reached := (plug context guard).formulaDepth_pos
      omega
    have met : (plug context guard).unmet limit .sized = [] := by
      simp [unmet, implements, proofDepth, sized, depth, positive]
    rw [met, List.nil_append, ← faulty]
    exact cutOff_unmet limit .boolExpr _

end Form

namespace Program

variable {program : Program} {type : Ty} {form : Form}

/-- What a type that is no boolean expression is refused for where it is used as one. -/
def operandRefusal (program : Program) (form : Form) : Refusal :=
  if program.limit < form.formulaDepth then .tooDeep else .illTyped

theorem ofFaults?_operandFault (program : Program) (form : Form) :
    Refusal.ofFaults? [form.operandFault program.limit] = some (program.operandRefusal form) := by
  unfold Form.operandFault operandRefusal
  split <;> rfl

/-- A mention that asks its type for what the type does not have is refused for that, wherever it stands. -/
theorem Gives.answer_value_of_unmet (sound : program.Sound) (gives : program.Gives type form)
    {how : Mention} (plain : how.isInline = false)
    (faulty : Finding.cutOff (how.unmet program.limit form) = [form.operandFault program.limit])
    (place : Place) :
    program.answer (.value place (.mention how type)) = .error (program.operandRefusal form) := by
  obtain ⟨scope, expanded, opens, expands, clean⟩ := gives
  have made (place : Place) : Expanding.run program.limit (Query.value place (.mention how type)).expand =
      .ok (.value place (.mention how expanded)) := by
    refine Expanding.run_map_eq_ok_iff.mpr
      ⟨_, Expanding.run_map_eq_ok_iff.mpr ⟨expanded, ?_, rfl⟩, rfl⟩
    rw [Mention.expand, plain]
    exact expands
  have found : ((Constant.mention how expanded).normalize scope).faults =
      [form.operandFault program.limit] := by
    rw [Constant.normalize, clean, Checked.faults, ← faulty, ← opens.limit_eq]
    exact (congrArg Finding.reported (List.append_nil _)).trans (Finding.reported_formation _)
  have refused : (Query.value .body (.mention how expanded)).answer scope =
      .error (program.operandRefusal form) := by
    simp only [Query.answer, Scope.conclude, sound.background_eq_nil opens, List.nil_append, found,
      Fault.refuse, ofFaults?_operandFault]
    rfl
  rw [opens.answer_eq (made place)]
  -- The constant is refused before it is evaluated, and so alike in both places.
  cases place with
  | body => exact refused
  | item => rw [Query.answer_value_of_faults (by rw [found]; exact List.cons_ne_nil _ _), refused]

/-- A type is a boolean expression exactly if the search for that finds nothing but what it looks for. -/
theorem Gives.answer_boolExpr_iff (sound : program.Sound) (gives : program.Gives type form) :
    program.answer (.implements .boolExpr type) = .ok (.flag true) ↔
      form.formulaDepth ≤ program.limit ∧ ∀ operand, form.Live operand → operand.Sensible := by
  have wellFormed := gives.wellFormed
  rw [gives.answer_implements sound, Fault.refuse_eq_ok_iff, and_iff_left rfl,
    Form.unmet_eq_nil_iff (wellFormed.settled not_false), Form.implements_boolExpr_iff wellFormed.1,
    Form.evaluable_iff_live wellFormed.1]
  rfl

/-- Any other type lacks the trait of boolean expressions for one reason. -/
theorem Gives.unmet_boolExpr_eq (gives : program.Gives type form)
    (fails : ¬ (form.formulaDepth ≤ program.limit ∧
      ∀ operand, form.Live operand → operand.Sensible)) :
    form.unmet program.limit .boolExpr = [form.operandFault program.limit] := by
  have wellFormed := gives.wellFormed
  rw [Form.unmet_boolExpr_eq (wellFormed.settled not_false), if_neg]
  rintro ⟨shallow, found⟩
  exact fails ⟨shallow, (Form.evaluable_iff_live wellFormed.1).mp
    ((Form.implements_boolExpr_iff wellFormed.1).mp found)⟩

/-- Any other type is refused for that reason where it is used as a boolean expression. -/
theorem Gives.answer_boolExpr_eq_error (sound : program.Sound) (gives : program.Gives type form)
    (fails : ¬ (form.formulaDepth ≤ program.limit ∧
      ∀ operand, form.Live operand → operand.Sensible)) :
    program.answer (.implements .boolExpr type) = .error (program.operandRefusal form) := by
  rw [gives.answer_implements sound, gives.unmet_boolExpr_eq fails, Fault.refuse,
    ofFaults?_operandFault]

/-- What is skipped in a live position makes no difference for whether a type is a boolean expression. -/
theorem Gives.answer_boolExpr_congr (sound : program.Sound) {context : List LiveFrame} {hidden : Form}
    {type' : Ty}
    (gives : program.Gives type (.plug context (.combine .or (.bool (some true)) hidden)))
    (gives' : program.Gives type' (.plug context (.bool (some true)))) :
    program.answer (.implements .boolExpr type) = program.answer (.implements .boolExpr type') := by
  have wellFormed := gives.wellFormed
  have wellFormed' := gives'.wellFormed
  have same : (Form.plug context (.combine .or (.bool (some true)) hidden)).implements .boolExpr =
      (Form.plug context (.bool (some true))).implements .boolExpr := by
    rw [Bool.eq_iff_iff, Form.implements_boolExpr_iff wellFormed.1,
      Form.implements_boolExpr_iff wellFormed'.1]
    exact Form.evaluable_plug_congr (iff_of_true (.skip hidden) (.bool true)) context
  -- The disjunction is found to be a boolean expression at the level at which its literal is.
  have level : (Form.combine .or (.bool (some true)) hidden).formulaDepth =
      (Form.bool (some true)).formulaDepth := rfl
  have depth := Form.formulaDepth_plug_congr level context
  rw [gives.answer_implements sound, gives'.answer_implements sound,
    Form.unmet_boolExpr_eq (wellFormed.settled not_false),
    Form.unmet_boolExpr_eq (wellFormed'.settled not_false), Form.operandFault, Form.operandFault,
    same, depth]

/-- What the operands of a type have to do with its being a boolean expression. -/
structure HeedsOperands (program : Program) (type : Ty) (form : Form) : Prop where
  /-- The type is a boolean expression exactly if all that its value depends on is made as those are. -/
  implements : program.answer (.implements .boolExpr type) = .ok (.flag true) ↔
    form.formulaDepth ≤ program.limit ∧ ∀ operand, form.Live operand → operand.Sensible
  /-- Any other type is refused for breaking a rule, or for too deep a search. -/
  refused : program.answer (.implements .boolExpr type) ≠ .ok (.flag true) →
    program.answer (.implements .boolExpr type) = .error (program.operandRefusal form)
  /-- The value of a boolean expression never depends on a guard. -/
  unguarded : program.answer (.implements .boolExpr type) = .ok (.flag true) →
    ∀ operand, form.Live operand → ¬ operand.Guard
  /-- With a guard in a live position, neither the type nor its value nor a guard of it can be used. -/
  guarded : ∀ operand, form.Live operand → operand.Guard →
    program.answer (.implements .boolExpr type) = .error (program.operandRefusal form) ∧
      ∀ place, program.answer (.value place (.mention .value type)) =
          .error (program.operandRefusal form) ∧
        program.answer (.value place (.mention .boolGuard type)) =
          .error (program.operandRefusal form)
  /-- What a disjunction skips, guards among it, makes no difference against a true literal alone. -/
  skipped : ∀ context hidden, form = .plug context (.combine .or (.bool (some true)) hidden) →
    ∀ {type'}, program.Gives type' (.plug context (.bool (some true))) →
      program.answer (.implements .boolExpr type) = program.answer (.implements .boolExpr type')

/-- Whether a type is a boolean expression is decided by its live operands. -/
theorem Gives.heedsOperands (sound : program.Sound) (gives : program.Gives type form) :
    program.HeedsOperands type form := by
  have implements := gives.answer_boolExpr_iff sound
  have unguarded (operand : Form) (live : form.Live operand) (guard : operand.Guard) :
      ¬ (form.formulaDepth ≤ program.limit ∧ ∀ operand, form.Live operand → operand.Sensible) :=
    fun both => guard.not_sensible (both.2 operand live)
  exact {
    implements
    refused := fun fails =>
      gives.answer_boolExpr_eq_error sound fun both => fails (implements.mpr both)
    unguarded := fun answered operand live guard =>
      unguarded operand live guard (implements.mp answered)
    guarded := fun operand live guard => by
      have fails := unguarded operand live guard
      have faulty := gives.unmet_boolExpr_eq fails
      refine ⟨gives.answer_boolExpr_eq_error sound fails, fun place => ⟨?_, ?_⟩⟩
      · refine gives.answer_value_of_unmet sound rfl ?_ place
        rw [Mention.unmet, ← faulty]
        exact Form.cutOff_unmet program.limit .boolExpr form
      · refine gives.answer_value_of_unmet sound rfl ?_ place
        obtain ⟨context, rfl⟩ := live
        exact guard.cutOff_unguardable context faulty
    skipped := fun context hidden same type' gives' => by
      subst same
      exact gives.answer_boolExpr_congr sound gives' }

/-- A disjunction behind a true literal is a boolean expression with a guard on its right. -/
theorem Gives.answer_implements_skip (sound : program.Sound) (gives : program.Gives type form)
    (guard : form.Guard) (room : 2 ≤ program.limit) :
    program.answer (.implements .boolExpr (.combine .or (.bool (.literal true)) type)) =
      .ok (.flag true) := by
  have literal := sound.gives_literal true
  have sized : (Form.bool (some true)).unmet program.limit .sized = [] :=
    unmet_sized_bool_iff.mpr (by omega)
  -- Nothing but a size is asked of the guard, and guards have one.
  have sized' : form.unmet program.limit .sized = [] := by
    obtain ⟨isSized, depth⟩ := guard.sized_plug []
    have deep : form.proofDepth .sized ≤ program.limit := by
      rw [Form.proofDepth, ← Form.plug_nil form, depth]
      omega
    exact (Form.unmet_eq_nil_iff (gives.wellFormed.settled not_false)).mpr ⟨deep, isSized⟩
  have whole : program.Gives (.combine .or (.bool (.literal true)) type)
      (.combine .or (.bool (some true)) form) :=
    gives_combine_iff.mpr ⟨_, form, literal, gives, sized, sized', rfl⟩
  rw [whole.answer_implements sound,
    (Form.unmet_eq_nil_iff (whole.wellFormed.settled not_false)).mpr ⟨room, rfl⟩]
  rfl

/--
A guard is never a live operand.

A type is a boolean expression exactly if all that its value depends on is made as boolean expressions are and
the search for that stays within the limit, which no guard is, except where a disjunction skips it.
-/
theorem guards_are_never_live (sound : program.Sound) :
    (∀ {type form}, program.Gives type form → program.HeedsOperands type form) ∧
      ∀ {type form}, program.Gives type form → form.Guard → 2 ≤ program.limit →
        program.answer (.implements .boolExpr (.combine .or (.bool (.literal true)) type)) =
          .ok (.flag true) :=
  ⟨fun gives => gives.heedsOperands sound, fun gives => gives.answer_implements_skip sound⟩

/-- A guard is refused behind a negation, and accepted where it is skipped. -/
theorem guards_are_never_live_behind_not :
    bare.answer (.implements .boolExpr (.wrap .not (.wrap .typeGuard .nil))) = .error .illTyped ∧
      bare.answer (.implements .boolExpr
        (.combine .or (.bool (.literal true)) (.wrap .typeGuard .nil))) = .ok (.flag true) := by
  obtain ⟨heeds, skips⟩ := guards_are_never_live sound_bare
  have guard : bare.Gives (.wrap .typeGuard .nil) (.wrap .typeGuard .nil) :=
    ⟨_, _, opens_bare, rfl, rfl⟩
  have negation : bare.Gives (.wrap .not (.wrap .typeGuard .nil))
      (.wrap .not (.wrap .typeGuard .nil)) := ⟨_, _, opens_bare, rfl, rfl⟩
  have live : (Form.wrap .not (.wrap .typeGuard .nil)).Live (.wrap .typeGuard .nil) := ⟨[.not], rfl⟩
  exact ⟨((heeds negation).guarded _ live trivial).1, skips guard trivial (by decide)⟩

/--
Not every type whose live operands are made as boolean expressions are is one, and not every type with a guard in
a live position breaks a rule, since the search ends at the limit.
-/
theorem live_operands_not_always_decide :
    (¬ ∀ (program : Program) (type : Ty) (form : Form), program.Sound → program.Gives type form →
      (∀ operand, form.Live operand → operand.Sensible) →
        program.answer (.implements .boolExpr type) = .ok (.flag true)) ∧
    ¬ ∀ (program : Program) (type : Ty) (form operand : Form), program.Sound →
      program.Gives type form → form.Live operand → operand.Guard →
        program.answer (.implements .boolExpr type) = .error .illTyped := by
  have opens : (⟨8, [], []⟩ : Program).Opens (Scope.ofAliases 8 []) := ⟨[], rfl, rfl⟩
  have sound : (⟨8, [], []⟩ : Program).Sound := ⟨_, opens, rfl⟩
  constructor
  · -- Seven negations of a literal need a proof that is nine levels deep.
    intro decides
    have gives : (⟨8, [], []⟩ : Program).Gives
        (Form.plug (List.replicate 7 .not) (.bool (some true))).written
        (.plug (List.replicate 7 .not) (.bool (some true))) := ⟨_, _, opens, rfl, rfl⟩
    have evaluable : (Form.plug (List.replicate 7 .not) (.bool (some true))).Evaluable :=
      .not (.not (.not (.not (.not (.not (.not (.bool true)))))))
    have answered := decides _ _ _ sound gives
      ((Form.evaluable_iff_live gives.wellFormed.1).mp evaluable)
    rw [gives.answer_implements sound] at answered
    cases answered
  · -- Behind eight negations, the guard is never looked at.
    intro decides
    have gives : (⟨8, [], []⟩ : Program).Gives
        (Form.plug (List.replicate 8 .not) (.wrap .typeGuard .nil)).written
        (.plug (List.replicate 8 .not) (.wrap .typeGuard .nil)) := ⟨_, _, opens, rfl, rfl⟩
    have answered := decides _ _ _ _ sound gives ⟨_, rfl⟩ trivial
    rw [gives.answer_implements sound] at answered
    cases answered

end Program

end TypeLists
