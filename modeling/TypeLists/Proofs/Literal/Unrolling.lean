import Mathlib.Data.List.Forall2
import TypeLists.Proofs.Expansion
import TypeLists.Proofs.Literal.Grammar

/-! The steps of a literal, one for every element and one for the end: the bound on their number plays
no part, and each takes place one level below the one before it. -/

namespace TypeLists

namespace Literal

variable {element other result : Type}

/-- A bound that is larger than the number of tokens is never reached. -/
theorem unroll_eq {steps bound depth : Nat} {tokens : List (Token (Nat → Expanding result))}
    (enough : tokens.length < steps) (enough' : tokens.length < bound) :
    unroll steps depth tokens = unroll bound depth tokens := by
  -- Every step but the last hands on fewer tokens, so that the induction is on one of the bounds.
  induction steps generalizing bound depth tokens with
  | zero => omega
  | succ steps ih =>
    cases bound with
    | zero => omega
    | succ bound =>
      cases made : step? tokens with
      | none => simp only [unroll, made]
      | some next =>
        cases next with
        | finish => simp only [unroll, made]
        | emit head rest =>
          have shorter := Calls.length_lt ⟨head, made⟩
          have tail : unroll steps (depth + 1) rest = unroll bound (depth + 1) rest :=
            ih (by omega) (by omega)
          simp only [unroll, made, tail]

/-- A literal is one step, and then the literal that this step calls. -/
theorem elements_eq (tokens : List (Token (Nat → Expanding result))) (depth : Nat) :
    elements tokens depth =
      Expanding.step depth [] (match step? tokens with
        | none => Expanding.mismatch []
        | some .finish => return []
        | some (.emit head rest) => do
          let first ← head (depth + 1)
          let others ← elements rest (depth + 1)
          return first :: others) := by
  rw [elements, unroll]
  cases made : step? tokens with
  | none => rfl
  | some next =>
    cases next with
    | finish => rfl
    | emit head rest =>
      have shorter := Calls.length_lt ⟨head, made⟩
      simp only [elements, unroll_eq shorter (Nat.lt_succ_self rest.length)]

/-- The comma layout of a literal plays no part. -/
theorem elements_eq_of_writes {tokens : List (Token (Nat → Expanding result))}
    {actions : List (Nat → Expanding result)} (written : Writes tokens actions) :
    elements tokens = elements (separated actions) := by
  funext depth
  rw [elements_eq, elements_eq (separated actions)]
  -- Both spellings make the same first step.
  have same : step? tokens = step? (separated actions) := by
    cases actions with
    | nil => rw [writes_nil_iff.mp written, separated]
    | cons head others =>
      rw [step?_eq_emit_iff.mpr ⟨others, written, rfl⟩,
        step?_eq_emit_iff.mpr ⟨others, writes_separated _, rfl⟩]
  rw [same]

theorem elements_separated_nil (depth : Nat) :
    elements (separated ([] : List (Nat → Expanding result))) depth =
      Expanding.step depth [] (return []) := by
  rw [elements_eq, step?_eq_finish_iff.mpr separated.eq_1]

theorem elements_separated_cons (head : Nat → Expanding result)
    (others : List (Nat → Expanding result)) (depth : Nat) :
    elements (separated (head :: others)) depth =
      Expanding.step depth [] (do
        let first ← head (depth + 1)
        let rest ← elements (separated others) (depth + 1)
        return first :: rest) := by
  rw [elements_eq, step?_eq_emit_iff.mpr ⟨others, writes_separated _, rfl⟩]

/-- A literal that no rule accepts is refused as soon as it is reached. -/
theorem run_elements_of_not_writes {tokens : List (Token (Nat → Expanding result))}
    (unwritten : ¬ ∃ actions, Writes tokens actions) {limit depth : Nat} (reached : depth < limit) :
    Expanding.run limit (elements tokens depth) = .error .noRule := by
  rw [elements_eq, step?_eq_none_iff.mpr unwritten, Expanding.run_eq]
  simp [Expanding.step, Expansion.start, reached, Expanding.mismatch, Expansion.error?]

/-- A literal with elements is accepted by a rule. -/
theorem exists_writes_of_run {tokens : List (Token (Nat → Expanding result))} {limit depth : Nat}
    {values : List result} (made : Expanding.run limit (elements tokens depth) = .ok values) :
    ∃ actions, Writes tokens actions := by
  by_contra unwritten
  rw [elements_eq, step?_eq_none_iff.mpr unwritten, Expanding.run_step_eq_ok_iff] at made
  cases made.2

/-- A literal of regular elements is regular. -/
theorem regular_separated {actions : List (Nat → Expanding result)}
    (regular : ∀ action ∈ actions, Expanding.Regular action) :
    Expanding.Regular (elements (separated actions)) := by
  induction actions with
  | nil =>
    rw [funext elements_separated_nil]
    exact (Expanding.Regular.pure []).step []
  | cons head others ih =>
    rw [funext (elements_separated_cons head others)]
    have tail := ih fun action member => regular action (by simp [member])
    exact ((regular head (by simp)).bind fun _ => tail.bind fun _ => .pure _).step []

theorem regular_elements {tokens : List (Token (Nat → Expanding result))}
    (regular : ∀ action, .element action ∈ tokens → Expanding.Regular action) :
    Expanding.Regular (elements tokens) := by
  by_cases written : ∃ actions, Writes tokens actions
  · obtain ⟨actions, written⟩ := written
    rw [elements_eq_of_writes written]
    exact regular_separated fun action member => regular action (written.mem_iff.mp member)
  · -- Without a rule, the only step is a mismatch.
    have single : elements tokens = fun depth => Expanding.step depth [] (Expanding.mismatch []) := by
      funext depth
      rw [elements_eq, step?_eq_none_iff.mpr written]
    rw [single]
    refine ⟨fun depth => (Expanding.lawful_mismatch _).step depth [], fun _ made => ?_⟩
    cases (Expanding.run_step_eq_ok_iff.mp made).2

/-- What the written elements expand to, if the first of them stands at a depth. -/
def Makes (limit depth : Nat) (expand : element → Nat → Expanding result)
    (written : List element) (values : List result) : Prop :=
  List.Forall₂ (fun placed value => Expanding.run limit (expand placed.1 placed.2) = .ok value)
    (written.zipIdx depth) values

variable {expand : element → Nat → Expanding result}

/-- The steps of a literal go right exactly if the last is allowed and all elements expand. -/
theorem run_separated_eq_ok_iff (regular : ∀ value, Expanding.Regular (expand value))
    {written : List element} {limit depth : Nat} {values : List result} :
    Expanding.run limit (elements (separated (written.map expand)) depth) = .ok values ↔
      depth + written.length + 1 ≤ limit ∧ Makes limit (depth + 1) expand written values := by
  induction written generalizing depth values with
  | nil =>
    rw [List.map_nil, elements_separated_nil, Expanding.run_step_eq_ok_iff, Expanding.run_pure]
    -- Nothing is emitted, and the step that ends the chain is the only one.
    have empty : Makes limit (depth + 1) expand [] values ↔ [] = values := by
      simp [Makes, eq_comm]
    rw [empty, Except.ok.injEq]
    exact Iff.rfl
  | cons head others ih =>
    have tail : Expanding.Regular (elements (separated (others.map expand))) :=
      regular_separated fun action member => by
        obtain ⟨value, _, same⟩ := List.mem_map.mp member
        exact same ▸ regular value
    rw [List.map_cons, elements_separated_cons, Expanding.run_step_eq_ok_iff,
      ((regular head).lawful _).run_bind_eq_ok_iff fun _ =>
        (tail.lawful _).bind fun _ => Expanding.lawful_pure _]
    simp only [(tail.lawful _).run_bind_eq_ok_iff fun _ => Expanding.lawful_pure _,
      Expanding.run_pure, Except.ok.injEq, ih, Makes, List.zipIdx_cons, List.length_cons]
    constructor
    · intro parts
      obtain ⟨allowed, first, begun, rest, ⟨last, others⟩, rfl⟩ := parts
      exact ⟨by omega, .cons begun others⟩
    · intro parts
      obtain ⟨last, made⟩ := parts
      cases made with
      | cons begun others => exact ⟨by omega, _, begun, _, ⟨by omega, others⟩, rfl⟩

/--
A literal goes right exactly if its tokens write some elements, its last step is allowed and all
elements expand.
-/
theorem run_elements_eq_ok_iff (regular : ∀ value, Expanding.Regular (expand value))
    {tokens : List (Token element)} {limit depth : Nat} {values : List result} :
    Expanding.run limit (elements (tokens.map (Token.map expand)) depth) = .ok values ↔
      ∃ written, Writes tokens written ∧
        depth + written.length + 1 ≤ limit ∧ Makes limit (depth + 1) expand written values := by
  -- Whichever elements the tokens write, their plain layout takes the same steps.
  have plain {written : List element} (writes : Writes tokens written) :
      Expanding.run limit (elements (tokens.map (Token.map expand)) depth) = .ok values ↔
        depth + written.length + 1 ≤ limit ∧ Makes limit (depth + 1) expand written values := by
    rw [elements_eq_of_writes (writes_map_iff.mpr ⟨written, writes, rfl⟩)]
    exact run_separated_eq_ok_iff regular
  constructor
  · intro made
    obtain ⟨actions, image⟩ := exists_writes_of_run made
    obtain ⟨written, writes, _⟩ := writes_map_iff.mp image
    exact ⟨written, writes, (plain writes).mp made⟩
  · intro parts
    obtain ⟨written, writes, parts⟩ := parts
    exact (plain writes).mpr parts

end Literal

end TypeLists
