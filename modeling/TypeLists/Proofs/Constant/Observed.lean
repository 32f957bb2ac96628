import Mathlib.Tactic.SplitIfs
import TypeLists.Generic

/-! What constants observe of the types that they name: results of mentions and lengths of lists decide how a
constant ends, in every place where it can stand. -/

namespace TypeLists

/-- What a constant observes of a form that it names. -/
inductive Observation where
  /-- The result of a mention, with whether the form is closed. -/
  | outcome (result : Except Failure Bool) (closed : Bool)
  /-- The length of a list, with whether the form is closed. -/
  | measure (length : Nat) (closed : Bool)

namespace Observation

/-- What a constant reads off what it observes. -/
def reading : Reading Observation where
  -- Mentions and lengths observe each their own.
  outcome
    | _, .outcome result _ => result
    | _, .measure _ _ => .ok true
  length
    | _, .measure length _ => length
    | _, .outcome _ _ => 0

/-- The outlook of a generic function on what its constants observe. -/
def outlook : Outlook Observation where
  outcome?
    | how, .outcome result closed => if how.isInline || !closed then none else some result
    | _, .measure _ _ => none
  length?
    | _, .measure length closed => if closed then some length else none
    | _, .outcome _ _ => none

end Observation

/-- The integer expression with what it observes in place of the lists that it measures. -/
def Arith.observed : Arith Form → Arith Observation
  | .literal minus magnitude => .literal minus magnitude
  | .least => .least
  | .greatest => .greatest
  | .negate operand => .negate operand.observed
  | .apply operation left right => .apply operation left.observed right.observed
  | .length kind list => .length kind (.measure (list.length kind) list.closed)

/-- The constant with what it observes in place of the forms that it names. -/
def Constant.observed : Constant Form → Constant Observation
  | .literal value => .literal value
  | .not operand => .not operand.observed
  | .connect connective left right => .connect connective left.observed right.observed
  | .choose condition positive negative =>
    .choose condition.observed positive.observed negative.observed
  | .compare comparison kind left right => .compare comparison kind left.observed right.observed
  | .panic index => .panic index
  | .mention how subject => .mention how (.outcome (Form.reading.outcome how subject) subject.closed)

namespace Arith

theorem hasMinus_observed (number : Arith Form) : number.observed.hasMinus = number.hasMinus := by
  induction number with
  | apply operation left right first second => rw [observed, hasMinus, hasMinus, first, second]
  | _ => rfl

theorem eval_observed (kind : IntKind) (number : Arith Form) :
    number.observed.eval Observation.reading kind = number.eval Form.reading kind := by
  induction number with
  | negate operand ih => rw [observed, eval, eval, ih]
  | apply operation left right first second => rw [observed, eval, eval, first, second]
  | _ => rfl

/-- An outlook on what is observed foresees the same numbers as one on the forms themselves. -/
theorem foresee_observed {outlook : Outlook Form} {outlook' : Outlook Observation}
    (lengths : ∀ kind list,
      outlook'.length? kind (.measure (list.length kind) list.closed) = outlook.length? kind list)
    (kind : IntKind) (number : Arith Form) :
    number.observed.foresee outlook' kind = number.foresee outlook kind := by
  induction number with
  | negate operand ih => rw [observed, foresee, foresee, ih]
  | apply operation left right first second => rw [observed, foresee, foresee, first, second]
  | length listKind list => rw [observed, foresee, foresee, lengths]
  | _ => rfl

end Arith

namespace Constant

theorem isMention_observed (constant : Constant Form) :
    constant.observed.isMention = constant.isMention := by
  cases constant <;> rfl

theorem leansPositive_observed (constant : Constant Form) :
    constant.observed.leansPositive = constant.leansPositive := by
  induction constant with
  | not operand ih => rw [observed, leansPositive, leansPositive, ih]
  | connect connective left right first second =>
    cases connective with
    | and => rw [observed, leansPositive, leansPositive, first, second]
    | or => rw [observed, leansPositive, leansPositive, first, second]
    | _ => rfl
  | _ => rfl

/-- Mentions are observed in the order in which they are evaluated. -/
theorem mentions_observed (constant : Constant Form) :
    constant.observed.mentions = constant.mentions.map fun (how, form) =>
      (how, .outcome (Form.reading.outcome how form) form.closed) := by
  induction constant with
  | not operand ih => rw [observed, mentions, mentions, ih]
  | connect connective left right first second =>
    -- Two operators may take their sides in the other order, which they decide by the sides' shapes.
    cases connective with
    | and => rw [observed, mentions, mentions, first, second, List.map_append]
    | or => rw [observed, mentions, mentions, first, second, List.map_append]
    | xor =>
      simp only [observed, mentions, isMention_observed, first, second]
      split_ifs <;> rw [List.map_append]
    | band =>
      simp only [observed, mentions, isMention_observed, first, second]
      split_ifs <;> rw [List.map_append]
  | choose condition positive negative first second third =>
    simp only [observed, mentions, leansPositive_observed, first, second, third]
    split_ifs <;> simp only [List.map_append]
  | _ => rfl

theorem failures_observed (constant : Constant Form) :
    failures Observation.reading constant.observed.mentions =
      failures Form.reading constant.mentions := by
  rw [failures, failures, mentions_observed, List.filterMap_map]
  rfl

theorem run_observed (constant : Constant Form) :
    constant.observed.run Observation.reading = constant.run Form.reading := by
  induction constant with
  | not operand ih => rw [observed, run, run, ih]
  | connect connective left right first second =>
    cases connective <;> rw [observed, run, run, first, second]
  | choose condition positive negative first second third =>
    rw [observed, run, run, first, second, third]
  | compare comparison kind left right =>
    rw [observed, run, run, Arith.eval_observed, Arith.eval_observed]
  | _ => rfl

/-- An outlook on what is observed previews the same as one on the forms themselves. -/
theorem preview_observed {outlook : Outlook Form} {outlook' : Outlook Observation}
    (outcomes : ∀ how form,
      outlook'.outcome? how (.outcome (Form.reading.outcome how form) form.closed) =
        outlook.outcome? how form)
    (lengths : ∀ kind list,
      outlook'.length? kind (.measure (list.length kind) list.closed) = outlook.length? kind list)
    (constant : Constant Form) : constant.observed.preview outlook' = constant.preview outlook := by
  induction constant with
  | not operand ih => rw [observed, preview, preview, ih]
  | connect connective left right first second =>
    cases connective <;> rw [observed, preview, preview, first, second]
  | choose condition positive negative first second third =>
    rw [observed, preview, preview, first, second, third]
  | compare comparison kind left right =>
    rw [observed, preview, preview, Arith.foresee_observed lengths, Arith.foresee_observed lengths]
  | mention how subject => rw [observed, preview, preview, outcomes]
  | _ => rfl

/-- A constant item ends as what it observes decides. -/
theorem asItem_observed (constant : Constant Form) :
    constant.observed.asItem Observation.reading = constant.asItem Form.reading := by
  rw [asItem, asItem, failures_observed, run_observed]

/-- A function body ends as what its constant observes decides. -/
theorem asBody_observed (constant : Constant Form) :
    constant.observed.asBody Observation.reading = constant.asBody Form.reading := by
  have previews : constant.observed.preview Observation.reading.outlook =
      constant.preview Form.reading.outlook :=
    preview_observed (fun _ _ => rfl) (fun _ _ => rfl) constant
  rw [asBody, asBody, failures_observed, run_observed, previews]

/-- Calls of generic functions end together as what their bodies observe decides. -/
theorem asBodies_observed (constants : List (Constant Form)) :
    asBodies Observation.reading (constants.map observed) = asBodies Form.reading constants := by
  rw [asBodies, asBodies, List.flatMap_map, List.mapM_map]
  simp only [failures_observed, Function.comp_def, run_observed]

/-- What is foreseen of a generic function is decided by what its body observes. -/
theorem foreseen_observed (constant : Constant Form) :
    constant.observed.preview Observation.outlook = constant.preview Form.outlook :=
  preview_observed (fun _ _ => rfl) (fun _ _ => rfl) constant

end Constant

end TypeLists
