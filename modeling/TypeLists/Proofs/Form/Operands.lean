import TypeLists.Proofs.Form.Formula

/-! Live operands: a form is a boolean expression exactly if everything that its value depends on is built as
boolean expressions are, and guards are not. -/

namespace TypeLists

/-- A step from a boolean expression to an operand that its value depends on. -/
inductive LiveFrame where
  | not
  | force
  | andLeft (right : Form)
  | andRight (left : Form)
  /-- The right operand of a disjunction, which is skipped behind any other literal. -/
  | orElse

/-- The expression with an operand at the end of the step. -/
def LiveFrame.plug (operand : Form) : LiveFrame → Form
  | not => .wrap .not operand
  | force => .wrap .force operand
  | andLeft right => .combine .and operand right
  | andRight left => .combine .and left operand
  | orElse => .combine .or (.bool (some false)) operand

namespace Form

/-- The expression with an operand at the end of some steps, the outermost of which comes first. -/
def plug (context : List LiveFrame) (operand : Form) : Form :=
  context.foldr (fun frame inner => frame.plug inner) operand

@[simp] theorem plug_nil (operand : Form) : plug [] operand = operand := rfl

@[simp] theorem plug_cons (frame : LiveFrame) (context : List LiveFrame) (operand : Form) :
    plug (frame :: context) operand = frame.plug (plug context operand) := rfl

/-- The value of the form depends on the operand. -/
def Live (form operand : Form) : Prop :=
  ∃ context, form = plug context operand

/-- The outermost former is one of those that boolean expressions are made of. -/
def Expression : Form → Prop
  | .bool _ | .atom (.broken _) | .combine _ _ _ | .wrap .not _ | .wrap .force _ => True
  | _ => False

/-- The form is the guard of an expression or of a type. -/
def Guard : Form → Prop
  | .wrap .boolGuard _ | .wrap .typeGuard _ => True
  | _ => False

/-- What is asked of an operand that the value of an expression depends on. -/
structure Sensible (operand : Form) : Prop where
  expression : operand.Expression
  /-- The left operand of a disjunction is a literal. -/
  literal : ∀ left right, operand = .combine .or left right → ∃ value, left = .bool (some value)
  /-- A comparison compares two type lists. -/
  lists : ∀ left right, operand = .combine .shorter left right →
    (∃ length, left.Chain .types length) ∧ ∃ length, right.Chain .types length

theorem Live.refl (form : Form) : form.Live form := ⟨[], rfl⟩

theorem Live.step {inner operand : Form} (live : inner.Live operand) (frame : LiveFrame) :
    (frame.plug inner).Live operand := by
  obtain ⟨context, rfl⟩ := live
  exact ⟨frame :: context, rfl⟩

/-- No guard is made as boolean expressions are. -/
theorem Guard.not_sensible {form : Form} (guard : form.Guard) : ¬ form.Sensible := by
  intro sensible
  have expression := sensible.expression
  -- Guards are formers with one parameter, and neither of them is one of the expressions.
  cases form with
  | wrap wrapper inner =>
    cases wrapper with
    | boolGuard => exact False.elim expression
    | typeGuard => exact False.elim expression
    | _ => exact False.elim guard
  | _ => exact False.elim guard

/-- An expression with an operand in a live position is a boolean expression only if the operand is one. -/
theorem Evaluable.of_plug {operand : Form} {context : List LiveFrame}
    (evaluable : (plug context operand).Evaluable) : operand.Evaluable := by
  -- Every step down leads from an expression to one of those that its rule asks for.
  induction context with
  | nil => exact evaluable
  | cons frame context ih =>
    refine ih ?_
    cases frame with
    | not => cases evaluable with | not inner => exact inner
    | force => cases evaluable with | force inner => exact inner
    | andLeft right => cases evaluable with | and first second => exact first
    | andRight left => cases evaluable with | and first second => exact second
    | orElse => cases evaluable with | orElse second => exact second

/-- A boolean expression is made as boolean expressions are. -/
theorem Evaluable.sensible {form : Form} (evaluable : form.Evaluable) : form.Sensible := by
  constructor
  · cases evaluable <;> trivial
  · rintro left right rfl
    cases evaluable with
    | skip right => exact ⟨true, rfl⟩
    | orElse second => exact ⟨false, rfl⟩
  · rintro left right rfl
    cases evaluable with
    | shorter first second => exact ⟨⟨_, first⟩, _, second⟩

/-- A form is a boolean expression if all operands that its value depends on are made as those are. -/
theorem evaluable_of_live : ∀ form : Form, (∀ hole ∈ form.holes, False) →
    (∀ operand, form.Live operand → operand.Sensible) → form.Evaluable
  -- The form is live itself, and so is what is live in the operands that its rule asks for.
  | .atom leaf, _, live => by
    cases leaf with
    | broken index => exact .broken index
    | _ => exact False.elim (live _ (.refl _)).expression
  | .bool value, whole, _ => by
    cases value with
    | some value => exact .bool value
    | none => exact (whole .lost (by simp [holes])).elim
  | .wrap wrapper operand, whole, live => by
    cases wrapper with
    | not => exact .not (evaluable_of_live operand whole fun _ inner => live _ (inner.step .not))
    | force =>
      exact .force (evaluable_of_live operand whole fun _ inner => live _ (inner.step .force))
    | _ => exact False.elim (live _ (.refl _)).expression
  | .combine combinator left right, whole, live => by
    have leftWhole : ∀ hole ∈ left.holes, False :=
      fun hole inside => whole hole (by simp [holes, inside])
    have rightWhole : ∀ hole ∈ right.holes, False :=
      fun hole inside => whole hole (by simp [holes, inside])
    cases combinator with
    | and =>
      exact .and (evaluable_of_live left leftWhole fun _ inner => live _ (inner.step (.andLeft right)))
        (evaluable_of_live right rightWhole fun _ inner => live _ (inner.step (.andRight left)))
    | or =>
      -- The literal on the left decides whether the right operand is live.
      obtain ⟨value, rfl⟩ := (live _ (.refl _)).literal left right rfl
      cases value with
      | true => exact .skip right
      | false =>
        exact .orElse (evaluable_of_live right rightWhole fun _ inner => live _ (inner.step .orElse))
    | shorter =>
      obtain ⟨⟨length, first⟩, length', second⟩ := (live _ (.refl _)).lists left right rfl
      exact .shorter first second
  | .cons _ _, _, live | .choice _ _ _, _, live | .tuple _, _, live | .function _ _, _, live
  | .boolCons _ _, _, live | .hole _, _, live => False.elim (live _ (.refl _)).expression

/-- A form without holes is a boolean expression exactly if all that its value depends on is made as those are. -/
theorem evaluable_iff_live {form : Form} (whole : ∀ hole ∈ form.holes, False) :
    form.Evaluable ↔ ∀ operand, form.Live operand → operand.Sensible := by
  constructor
  · rintro evaluable operand ⟨context, rfl⟩
    exact evaluable.of_plug.sensible
  · exact evaluable_of_live form whole

section Exchange

variable {operand operand' : Form}

/-- In a live position, only whether an operand is a boolean expression plays a part. -/
theorem evaluable_plug_congr (same : operand.Evaluable ↔ operand'.Evaluable)
    (context : List LiveFrame) : (plug context operand).Evaluable ↔ (plug context operand').Evaluable := by
  -- One direction is enough, since the operands can be exchanged.
  have one {operand operand' : Form} (given : operand.Evaluable → operand'.Evaluable) :
      ∀ context, (plug context operand).Evaluable → (plug context operand').Evaluable := by
    intro context
    induction context with
    | nil => exact given
    | cons frame context ih =>
      intro evaluable
      cases frame with
      | not => cases evaluable with | not inner => exact .not (ih inner)
      | force => cases evaluable with | force inner => exact .force (ih inner)
      | andLeft right => cases evaluable with | and first second => exact .and (ih first) second
      | andRight left => cases evaluable with | and first second => exact .and first (ih second)
      | orElse => cases evaluable with | orElse second => exact .orElse (ih second)
  exact ⟨one same.mp context, one same.mpr context⟩

/-- In a live position, only how deep the proof about the operand is plays a part for the depth. -/
theorem formulaDepth_plug_congr (same : operand.formulaDepth = operand'.formulaDepth)
    (context : List LiveFrame) :
    (plug context operand).formulaDepth = (plug context operand').formulaDepth := by
  induction context with
  | nil => exact same
  | cons frame context ih =>
    cases frame <;> simp only [plug_cons, LiveFrame.plug, formulaDepth, ih]

/-- With a guard in a live position, an expression is sized, as all expressions and all guards are. -/
theorem Guard.sized_plug {guard : Form} (isGuard : guard.Guard) (context : List LiveFrame) :
    (plug context guard).sized = true ∧ (plug context guard).sizedDepth = 1 := by
  cases context with
  | nil =>
    cases guard with
    | wrap wrapper inner =>
      cases wrapper with
      | boolGuard => exact ⟨rfl, rfl⟩
      | typeGuard => exact ⟨rfl, rfl⟩
      | _ => exact False.elim isGuard
    | _ => exact False.elim isGuard
  | cons frame context => cases frame <;> exact ⟨rfl, rfl⟩

end Exchange

end Form

end TypeLists
