import TypeLists.Expansion

/-! Expansions that go right: an action never takes back an error, so one that ends without errors has
left the state alone at every step. -/

namespace TypeLists

/-- Something went wrong in an expansion. -/
def Expansion.Failed (state : Expansion) : Prop :=
  state.unmatched ∨ state.refused

/-- An expansion has no error to report exactly if nothing went wrong in it. -/
theorem Expansion.error?_eq_none_iff {state : Expansion} :
    state.error? = none ↔ ¬ state.Failed := by
  -- Either of the two flags is an error of its own.
  rcases state with ⟨limit, unmatched, refused⟩
  cases unmatched <;> cases refused <;> simp [error?, Failed]

namespace Expanding

variable {source result : Type}

/-- The action leaves the state alone unless something goes wrong in it. -/
def Lawful (action : Expanding result) : Prop :=
  ∀ state, (action state).2 = state ∨ (action state).2.Failed

theorem lawful_pure (value : result) : (pure value : Expanding result).Lawful :=
  fun _ => .inl rfl

theorem lawful_mismatch (substitute : result) : (mismatch substitute).Lawful :=
  fun _ => .inr (.inl rfl)

theorem Lawful.step {action : Expanding result} (lawful : action.Lawful) (depth : Nat)
    (substitute : result) : (step depth substitute action).Lawful := by
  intro state
  unfold Expanding.step
  split
  · exact lawful state
  · exact .inr (.inr rfl)

/-- A sequence hands the state of its first part to its second. -/
theorem bind_apply (first : Expanding source) (next : source → Expanding result)
    (state : Expansion) : (first >>= next) state = next (first state).1 (first state).2 := rfl

/-- Lawful actions stay lawful in sequence. -/
theorem Lawful.bind {first : Expanding source} {next : source → Expanding result}
    (lawful : first.Lawful) (then_ : ∀ value, (next value).Lawful) : (first >>= next).Lawful := by
  intro state
  rw [bind_apply]
  -- An error of the first part is still there after the second, which starts where the first ends.
  rcases then_ (first state).1 (first state).2 with kept | failed
  · rw [kept]
    exact lawful state
  · exact .inr failed

/-- Lawful actions stay lawful when they are run over the members of a list. -/
theorem lawful_mapM {action : source → Expanding result} {members : List source}
    (lawful : ∀ member ∈ members, (action member).Lawful) : (members.mapM action).Lawful := by
  -- Running over a list is a sequence of as many actions.
  induction members with
  | nil => exact lawful_pure []
  | cons head rest ih =>
    rw [List.mapM_cons]
    refine (lawful head (by simp)).bind fun first => ?_
    exact (ih fun member inside => lawful member (by simp [inside])).bind fun _ => lawful_pure _

/-- An expansion fails with the error of its last state. -/
theorem run_eq (limit : Nat) (action : Expanding result) :
    run limit action =
      match (action (Expansion.start limit)).2.error? with
      | some error => .error error
      | none => .ok (action (Expansion.start limit)).1 := rfl

/-- An action succeeds exactly if nothing has gone wrong at its end. -/
theorem run_eq_ok_iff {action : Expanding result} {limit : Nat} {made : result} :
    run limit action = .ok made ↔
      ¬ (action (Expansion.start limit)).2.Failed ∧ (action (Expansion.start limit)).1 = made := by
  rw [run_eq, ← Expansion.error?_eq_none_iff]
  cases (action (Expansion.start limit)).2.error? with
  | some error => simp
  | none => simp

@[simp] theorem run_pure {limit : Nat} {value : result} : run limit (pure value) = .ok value := rfl

/-- A step succeeds exactly if its depth is allowed and what it does succeeds. -/
theorem run_step_eq_ok_iff {depth limit : Nat} {substitute made : result}
    {action : Expanding result} :
    run limit (step depth substitute action) = .ok made ↔
      depth < limit ∧ run limit action = .ok made := by
  -- Before the first step, the depth is held against the given limit.
  rw [run_eq_ok_iff, run_eq_ok_iff]
  unfold step
  by_cases allowed : depth < (Expansion.start limit).limit
  · rw [if_pos allowed]
    exact ⟨fun succeeds => ⟨allowed, succeeds⟩, fun both => both.2⟩
  · rw [if_neg allowed]
    exact ⟨fun succeeds => absurd (.inr rfl) succeeds.1, fun both => absurd both.1 allowed⟩

/-- What is made of a result at the end plays no part in whether there is one. -/
theorem run_bind_pure (limit : Nat) (action : Expanding source) (change : source → result) :
    run limit (action >>= fun value => pure (change value)) = (run limit action).map change := by
  -- The change at the end does not touch the state.
  have state : ((action >>= fun value => pure (change value)) (Expansion.start limit)).2 =
      (action (Expansion.start limit)).2 := rfl
  rw [run_eq, run_eq, state]
  cases (action (Expansion.start limit)).2.error? with
  | none => rfl
  | some error => rfl

/-- A sequence of lawful actions succeeds exactly if both of its parts do. -/
theorem Lawful.run_bind_eq_ok_iff {first : Expanding source} {next : source → Expanding result}
    (lawful : first.Lawful) (then_ : ∀ value, (next value).Lawful) {limit : Nat} {made : result} :
    run limit (first >>= next) = .ok made ↔
      ∃ middle, run limit first = .ok middle ∧ run limit (next middle) = .ok made := by
  simp only [run_eq_ok_iff, bind_apply]
  constructor
  · intro succeeds
    -- Had something gone wrong in the first part, it would show at the end of the second.
    have right : ¬ (first (Expansion.start limit)).2.Failed := by
      have same := (then_ _ _).resolve_right succeeds.1
      exact same ▸ succeeds.1
    rw [(lawful _).resolve_right right] at succeeds
    exact ⟨_, ⟨right, rfl⟩, succeeds⟩
  · intro parts
    obtain ⟨middle, ⟨right, rfl⟩, succeeds⟩ := parts
    rw [(lawful _).resolve_right right]
    exact succeeds

/-- What is made of one result succeeds exactly if the result is made. -/
theorem run_map_eq_ok_iff {action : Expanding source} {change : source → result} {limit : Nat}
    {made : result} :
    run limit (action >>= fun value => pure (change value)) = .ok made ↔
      ∃ value, run limit action = .ok value ∧ change value = made := by
  rw [run_bind_pure]
  cases run limit action with
  | error error => simp [Except.map]
  | ok value => simp [Except.map]

/-- What is made of two results succeeds exactly if both are made. -/
theorem Lawful.run_map₂_eq_ok_iff {second : Type} {action : Expanding source}
    {action' : Expanding second} (lawful : action.Lawful) (lawful' : action'.Lawful)
    {change : source → second → result} {limit : Nat} {made : result} :
    run limit (action >>= fun value => action' >>= fun value' => pure (change value value')) =
        .ok made ↔
      ∃ value value', run limit action = .ok value ∧ run limit action' = .ok value' ∧
        change value value' = made := by
  rw [lawful.run_bind_eq_ok_iff fun _ => lawful'.bind fun _ => lawful_pure _]
  simp only [run_map_eq_ok_iff]
  grind

/-- What is made of three results succeeds exactly if all of them are made. -/
theorem Lawful.run_map₃_eq_ok_iff {second third : Type} {action : Expanding source}
    {action' : Expanding second} {action'' : Expanding third} (lawful : action.Lawful)
    (lawful' : action'.Lawful) (lawful'' : action''.Lawful)
    {change : source → second → third → result} {limit : Nat} {made : result} :
    run limit (action >>= fun value => action' >>= fun value' => action'' >>= fun value'' =>
        pure (change value value' value'')) = .ok made ↔
      ∃ value value' value'', run limit action = .ok value ∧ run limit action' = .ok value' ∧
        run limit action'' = .ok value'' ∧ change value value' value'' = made := by
  rw [lawful.run_bind_eq_ok_iff fun _ => lawful'.bind fun _ => lawful''.bind fun _ => lawful_pure _]
  simp only [lawful'.run_map₂_eq_ok_iff lawful'']
  grind

/-- The depth of an action's place matters only in so far as a deeper place is less often allowed. -/
structure Regular (action : Nat → Expanding result) : Prop where
  /-- The action does not touch the state where nothing goes wrong. -/
  lawful : ∀ depth, (action depth).Lawful
  /-- What succeeds at a depth succeeds in the same way further out. -/
  outward : ∀ {limit outer depth made}, outer ≤ depth → run limit (action depth) = .ok made →
    run limit (action outer) = .ok made

namespace Regular

theorem pure (value : result) : Regular fun _ => (Pure.pure value : Expanding result) where
  lawful _ := lawful_pure value
  outward _ made := made

/-- Regular actions stay regular in sequence at one depth. -/
theorem bind {first : Nat → Expanding source} {next : source → Nat → Expanding result}
    (regular : Regular first) (then_ : ∀ value, Regular (next value)) :
    Regular fun depth => first depth >>= fun value => next value depth where
  lawful depth := (regular.lawful depth).bind fun value => (then_ value).lawful depth
  outward shallow made := by
    rw [(regular.lawful _).run_bind_eq_ok_iff fun value => (then_ value).lawful _] at made ⊢
    obtain ⟨middle, begun, rest⟩ := made
    exact ⟨middle, regular.outward shallow begun, (then_ middle).outward shallow rest⟩

/-- A regular action stays regular when it is a step of its own, one level deeper. -/
theorem step {action : Nat → Expanding result} (regular : Regular action) (substitute : result) :
    Regular fun depth => Expanding.step depth substitute (action (depth + 1)) where
  lawful depth := (regular.lawful (depth + 1)).step depth substitute
  outward shallow made := by
    rw [run_step_eq_ok_iff] at made ⊢
    exact ⟨by omega, regular.outward (by omega) made.2⟩

end Regular

end Expanding

end TypeLists
