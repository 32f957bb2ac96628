import TypeLists.Proofs.Expansion.Demands

/-! What actions of an expansion ask of the limit, and that types and constants ask for what their
literals and inline guards demand. -/

namespace TypeLists

namespace Expanding

variable {source second third result : Type} {limit : Nat}

/-- The action finds a rule for every literal, however far it comes. -/
def Matched (action : Expanding result) : Prop :=
  ∀ state, (action state).2.unmatched = state.unmatched

theorem matched_pure (value : result) : (pure value : Expanding result).Matched := fun _ => rfl

/-- A sequence finds its rules if both of its parts do. -/
theorem Matched.bind {first : Expanding source} {next : source → Expanding result}
    (matched : first.Matched) (then_ : ∀ value, (next value).Matched) :
    (first >>= next).Matched := fun state =>
  (then_ _ _).trans (matched state)

/-- A step finds its rules if what it leads to does, whether or not it is taken. -/
theorem Matched.step {action : Expanding result} (matched : action.Matched) (depth : Nat)
    (substitute : result) : (step depth substitute action).Matched := by
  -- A refusal is another error than a literal without a rule.
  intro state
  unfold Expanding.step
  split
  · exact matched state
  · rfl

/-- An action that finds all its rules is refused for its depth, if at all. -/
theorem Matched.run_eq_recursionLimit {action : Expanding result} (matched : action.Matched)
    (fails : ¬ ∃ plain, run limit action = .ok plain) :
    run limit action = .error .recursionLimit := by
  rw [run_eq] at fails ⊢
  -- The flag of an unmatched literal is where it was before, so that only the other one can be up.
  have found : (action (Expansion.start limit)).2.unmatched = false := matched _
  cases refused : (action (Expansion.start limit)).2.refused with
  | true => simp [Expansion.error?, found, refused]
  | false => simp [Expansion.error?, found, refused] at fails

/-- The action goes right exactly under a condition and if its demands are allowed, with one result. -/
structure Asks (limit : Nat) (action : Expanding result) (condition : Prop) (demands : List Demand)
    (made : result) : Prop where
  /-- The action does not touch the state where nothing goes wrong. -/
  lawful : action.Lawful
  /-- Under the condition, the depth is all that can be wrong. -/
  matched : condition → action.Matched
  /-- The limit decides through the demands alone. -/
  run_eq_ok_iff : ∀ plain, run limit action = .ok plain ↔
    condition ∧ (∀ demand ∈ demands, demand.Within limit) ∧ made = plain

namespace Asks

variable {action : Expanding source} {action' : Expanding second} {action'' : Expanding third}
  {condition condition' condition'' : Prop} {demands demands' demands'' : List Demand}
  {made : source} {made' : second} {made'' : third}

/-- A result that is there already asks for nothing. -/
theorem pure (value : source) : Asks limit (Pure.pure value) True [] value where
  lawful := lawful_pure value
  matched _ := matched_pure value
  run_eq_ok_iff plain := by simp

/-- A condition may be put in other words. -/
theorem congr (asks : Asks limit action condition demands made) (same : condition ↔ condition') :
    Asks limit action condition' demands made where
  lawful := asks.lawful
  matched holds := asks.matched (same.mpr holds)
  run_eq_ok_iff plain := by rw [asks.run_eq_ok_iff, same]

/-- What is made of a result asks for what the result asks for. -/
theorem map (asks : Asks limit action condition demands made) (change : source → result) :
    Asks limit (action >>= fun value => Pure.pure (change value)) condition demands
      (change made) where
  lawful := asks.lawful.bind fun _ => lawful_pure _
  matched holds := (asks.matched holds).bind fun _ => matched_pure _
  run_eq_ok_iff plain := by
    simp only [run_map_eq_ok_iff, asks.run_eq_ok_iff]
    -- The result of the part is determined, and with it what is made of that.
    constructor
    · intro parts
      obtain ⟨_, ⟨holds, within, rfl⟩, same⟩ := parts
      exact ⟨holds, within, same⟩
    · intro parts
      obtain ⟨holds, within, same⟩ := parts
      exact ⟨made, ⟨holds, within, rfl⟩, same⟩

/-- What is made of two results asks for what both of them ask for. -/
theorem map₂ (asks : Asks limit action condition demands made)
    (asks' : Asks limit action' condition' demands' made') (change : source → second → result) :
    Asks limit (action >>= fun value => action' >>= fun value' => Pure.pure (change value value'))
      (condition ∧ condition') (demands ++ demands') (change made made') where
  -- Both parts leave the state alone, so that the second one runs as it does from the start.
  lawful := asks.lawful.bind fun _ => asks'.lawful.bind fun _ => lawful_pure _
  matched holds := (asks.matched holds.1).bind fun _ => (asks'.matched holds.2).bind fun _ =>
    matched_pure _
  run_eq_ok_iff plain := by
    simp only [asks.lawful.run_map₂_eq_ok_iff asks'.lawful, asks.run_eq_ok_iff,
      asks'.run_eq_ok_iff, List.forall_mem_append]
    -- Each part has its own condition, its own demands and its one result.
    constructor
    · intro parts
      obtain ⟨_, _, ⟨holds, within, rfl⟩, ⟨holds', within', rfl⟩, same⟩ := parts
      exact ⟨⟨holds, holds'⟩, ⟨within, within'⟩, same⟩
    · intro parts
      obtain ⟨⟨holds, holds'⟩, ⟨within, within'⟩, same⟩ := parts
      exact ⟨made, made', ⟨holds, within, rfl⟩, ⟨holds', within', rfl⟩, same⟩

/-- What is made of three results asks for what all of them ask for. -/
theorem map₃ (asks : Asks limit action condition demands made)
    (asks' : Asks limit action' condition' demands' made')
    (asks'' : Asks limit action'' condition'' demands'' made'')
    (change : source → second → third → result) :
    Asks limit (action >>= fun value => action' >>= fun value' => action'' >>= fun value'' =>
        Pure.pure (change value value' value''))
      (condition ∧ condition' ∧ condition'') (demands ++ demands' ++ demands'')
      (change made made' made'') where
  -- As for two parts, each of the three runs as it does from the start.
  lawful := asks.lawful.bind fun _ => asks'.lawful.bind fun _ => asks''.lawful.bind fun _ =>
    lawful_pure _
  matched holds := (asks.matched holds.1).bind fun _ => (asks'.matched holds.2.1).bind fun _ =>
    (asks''.matched holds.2.2).bind fun _ => matched_pure _
  run_eq_ok_iff plain := by
    simp only [asks.lawful.run_map₃_eq_ok_iff asks'.lawful asks''.lawful, asks.run_eq_ok_iff,
      asks'.run_eq_ok_iff, asks''.run_eq_ok_iff, List.forall_mem_append]
    constructor
    · intro parts
      obtain ⟨_, _, _, ⟨holds, within, rfl⟩, ⟨holds', within', rfl⟩, ⟨holds'', within'', rfl⟩,
        same⟩ := parts
      exact ⟨⟨holds, holds', holds''⟩, ⟨⟨within, within'⟩, within''⟩, same⟩
    · intro parts
      obtain ⟨⟨holds, holds', holds''⟩, ⟨⟨within, within'⟩, within''⟩, same⟩ := parts
      exact ⟨made, made', made'', ⟨holds, within, rfl⟩, ⟨holds', within', rfl⟩,
        ⟨holds'', within'', rfl⟩, same⟩

/-- A step asks for itself, besides what it leads to. -/
theorem step (asks : Asks limit action condition demands made) (depth : Nat) (substitute : source) :
    Asks limit (Expanding.step depth substitute action) condition (.guard depth :: demands)
      made where
  lawful := asks.lawful.step depth substitute
  matched holds := (asks.matched holds).step depth substitute
  -- The depth is held against the limit before anything else happens.
  run_eq_ok_iff plain := by
    rw [run_step_eq_ok_iff, asks.run_eq_ok_iff, List.forall_mem_cons, Demand.within_guard]
    constructor
    · intro parts
      obtain ⟨allowed, holds, within, same⟩ := parts
      exact ⟨holds, ⟨allowed, within⟩, same⟩
    · intro parts
      obtain ⟨holds, ⟨allowed, within⟩, same⟩ := parts
      exact ⟨allowed, holds, within, same⟩

/-- Running over a list asks for what is asked for every member. -/
theorem mapM {action : source → Expanding result} {condition : source → Prop}
    {demands : source → List Demand} {made : source → result} {members : List source}
    (asks : ∀ member ∈ members,
      Asks limit (action member) (condition member) (demands member) (made member)) :
    Asks limit (members.mapM action) (∀ member ∈ members, condition member)
      (members.flatMap demands) (members.map made) := by
  -- The induction is on the members: the first asks for its share, and the rest for theirs.
  induction members with
  | nil => exact (Asks.pure []).congr (by simp)
  | cons head rest ih =>
    rw [List.mapM_cons]
    have first := asks head (List.mem_cons_self ..)
    have others := ih fun member inside => asks member (List.mem_cons_of_mem _ inside)
    exact (first.map₂ others List.cons).congr List.forall_mem_cons.symm

/-- What is not allowed is refused for its depth. -/
theorem run_eq_recursionLimit (asks : Asks limit action condition demands made) (holds : condition)
    (exceeds : ¬ ∀ demand ∈ demands, demand.Within limit) :
    run limit action = .error .recursionLimit := by
  apply (asks.matched holds).run_eq_recursionLimit
  intro some
  obtain ⟨plain, succeeds⟩ := some
  exact exceeds ((asks.run_eq_ok_iff plain).mp succeeds).2.1

end Asks

end Expanding

open Expanding (Asks)

variable {limit : Nat}

section Literal

variable {element : Type} {expand : element → Nat → Expanding element} {shaped : element → Prop}
  {demands : element → Nat → List Demand} {unfolded : element → element}

/-- The elements of a literal expand exactly if what each of them asks for is allowed. -/
theorem Literal.makes_iff {written values : List element}
    (asks : ∀ value ∈ written, ∀ depth,
      Asks limit (expand value depth) (shaped value) (demands value depth) (unfolded value))
    {depth : Nat} :
    Makes limit depth expand written values ↔
      (∀ value ∈ written, shaped value) ∧
        (∀ demand ∈ (written.zipIdx depth).flatMap fun placed => demands placed.1 placed.2,
          demand.Within limit) ∧
        written.map unfolded = values := by
  -- The elements follow one another, each one level below the one before it.
  unfold Makes
  induction written generalizing depth values with
  | nil => simp [eq_comm]
  | cons head rest ih =>
    have first := (asks head (List.mem_cons_self ..) depth).run_eq_ok_iff
    have others := fun {values} => @ih values
      (fun value member => asks value (List.mem_cons_of_mem _ member)) (depth + 1)
    simp only [List.zipIdx_cons, List.forall₂_cons_left_iff, first, others, List.flatMap_cons,
      List.forall_mem_append, List.forall_mem_cons, List.map_cons]
    constructor
    · intro parts
      obtain ⟨_, _, ⟨holds, within, rfl⟩, ⟨rest, allowed, rfl⟩, rfl⟩ := parts
      exact ⟨⟨holds, rest⟩, ⟨within, allowed⟩, rfl⟩
    · intro parts
      obtain ⟨⟨holds, rest⟩, ⟨within, allowed⟩, same⟩ := parts
      exact ⟨_, _, ⟨holds, within, rfl⟩, ⟨rest, allowed, rfl⟩, same.symm⟩

/-- A literal of accepted shape finds its rules if its elements do. -/
theorem Literal.matched_separated {result : Type} {actions : List (Nat → Expanding result)}
    (matched : ∀ action ∈ actions, ∀ depth, (action depth).Matched) (depth : Nat) :
    (elements (separated actions) depth).Matched := by
  -- The induction is on the elements, each of which is read by a step of the literal.
  induction actions generalizing depth with
  | nil =>
    rw [elements_separated_nil]
    exact (Expanding.matched_pure []).step depth []
  | cons head rest ih =>
    rw [elements_separated_cons]
    have first := matched head (List.mem_cons_self ..) (depth + 1)
    have others := ih (fun action member => matched action (List.mem_cons_of_mem _ member)) (depth + 1)
    exact (first.bind fun _ => others.bind fun _ => Expanding.matched_pure _).step depth []

/-- A literal asks for its steps, and for what its elements ask for. -/
theorem Literal.Builds.asks {literal : List (Token element) → Ty} {node : element → Ty → Ty}
    {last : Ty} (builds : Builds literal expand node last) {tokens : List (Token element)}
    (asks : ∀ value, .element value ∈ tokens → ∀ depth,
      Asks limit (expand value depth) (shaped value) (demands value depth) (unfolded value))
    (depth : Nat) :
    Asks limit ((literal tokens).expand depth)
      ((∃ written, Writes tokens written) ∧ ∀ value ∈ tokens.filterMap Token.value?, shaped value)
      (.literal (tokens.filterMap Token.value?).length depth ::
        ((tokens.filterMap Token.value?).zipIdx (depth + 1)).flatMap fun placed =>
          demands placed.1 placed.2)
      (((tokens.filterMap Token.value?).map unfolded).foldr node last) where
  lawful := (literal tokens).regular_expand.lawful depth
  matched holds := by
    -- The tokens can be replaced by those that are written with a comma between any two elements.
    obtain ⟨⟨written, writes⟩, shaped⟩ := holds
    rw [builds.expand_eq, elements_eq_of_writes (writes_map_iff.mpr ⟨written, writes, rfl⟩)]
    refine (matched_separated ?_ depth).bind fun _ => Expanding.matched_pure _
    intro action member depth
    obtain ⟨value, inside, rfl⟩ := List.mem_map.mp member
    exact (asks value (writes.mem_iff.mp inside) depth).matched
      (shaped value (writes.filterMap.symm ▸ inside))
  run_eq_ok_iff plain := by
    rw [builds.run_eq_ok_iff, List.forall_mem_cons, Demand.within_literal]
    -- The written elements are those that the tokens carry.
    constructor
    · intro parts
      obtain ⟨written, values, writes, within, makes, rfl⟩ := parts
      rw [makes_iff fun value member => asks value (writes.mem_iff.mp member)] at makes
      obtain ⟨holds, allowed, rfl⟩ := makes
      rw [writes.filterMap]
      exact ⟨⟨⟨written, writes⟩, holds⟩, ⟨within, allowed⟩, rfl⟩
    · intro parts
      obtain ⟨⟨⟨written, writes⟩, holds⟩, ⟨within, allowed⟩, rfl⟩ := parts
      rw [writes.filterMap] at holds within allowed ⊢
      refine ⟨written, _, writes, within, ?_, rfl⟩
      rw [makes_iff fun value member => asks value (writes.mem_iff.mp member)]
      exact ⟨holds, allowed, rfl⟩

end Literal

mutual

/-- A type asks for what its literals and inline guards ask for, if its literals are accepted. -/
theorem Ty.asks : ∀ (type : Ty) (depth : Nat),
    Asks limit (type.expand depth) type.Shaped (type.demands depth) type.unfolded
  -- Every former asks for what its parts ask for, and only literals ask for more.
  | .atom leaf, _ => (Asks.pure (Ty.atom leaf)).congr (by simp)
  | .named name, _ => (Asks.pure (Ty.named name)).congr (by simp)
  | .wrap wrapper inner, depth =>
    ((inner.asks depth).map (Ty.wrap wrapper)).congr Ty.shaped_wrap_iff.symm
  | .cons head tail, depth =>
    ((head.asks depth).map₂ (tail.asks depth) Ty.cons).congr Ty.shaped_cons_iff.symm
  | .combine combinator left right, depth =>
    ((left.asks depth).map₂ (right.asks depth) (Ty.combine combinator)).congr
      Ty.shaped_combine_iff.symm
  | .choice condition positive negative, depth =>
    ((condition.asks depth).map₃ (positive.asks depth) (negative.asks depth) Ty.choice).congr
      Ty.shaped_choice_iff.symm
  | .tuple members, depth =>
    ((Ty.asksAll members depth).map Ty.tuple).congr Ty.shaped_tuple_iff.symm
  | .function arguments result, depth =>
    ((Ty.asksAll arguments depth).map₂ (result.asks depth) Ty.function).congr
      Ty.shaped_function_iff.symm
  | .bool constant, depth => ((constant.asks depth).map Ty.bool).congr Ty.shaped_bool_iff.symm
  | .boolCons constant tail, depth =>
    ((constant.asks depth).map₂ (tail.asks depth) Ty.boolCons).congr Ty.shaped_boolCons_iff.symm
  | .list tokens, depth => by
    rw [Ty.demands, Ty.tokenDemands_eq, Ty.unfolded, Ty.unfoldedTokens_eq]
    exact (Literal.builds_list.asks (Ty.asksTokens tokens) depth).congr Ty.shaped_list_iff.symm
  | .boolList tokens, depth => by
    rw [Ty.demands, Constant.tokenDemands_eq, Ty.unfolded, Constant.unfoldedTokens_eq]
    exact (Literal.builds_boolList.asks (Constant.asksTokens tokens) depth).congr
      Ty.shaped_boolList_iff.symm
  | .output subject, depth =>
    ((subject.asks depth).map Ty.output).congr Ty.shaped_output_iff.symm
  | .select subject, depth =>
    ((subject.asks depth).map Ty.select).congr Ty.shaped_select_iff.symm

/-- Types that stand at one depth ask for what each of them asks for. -/
theorem Ty.asksAll : ∀ (types : List Ty) (depth : Nat),
    Asks limit (Ty.expandAll types depth) (∀ type ∈ types, type.Shaped) (Ty.allDemands types depth)
      (Ty.allUnfolded types)
  | [], _ => (Asks.pure []).congr (by simp)
  | head :: rest, depth =>
    ((head.asks depth).map₂ (Ty.asksAll rest depth) List.cons).congr List.forall_mem_cons.symm

/-- The elements of a type list ask for what they do as types of their own. -/
theorem Ty.asksTokens : ∀ (tokens : List (Token Ty)) (type : Ty), .element type ∈ tokens →
    ∀ depth, Asks limit (type.expand depth) type.Shaped (type.demands depth) type.unfolded
  | .comma :: rest, type, member => Ty.asksTokens rest type (by simpa using member)
  | .element head :: rest, type, member => by
    rcases List.mem_cons.mp member with same | member
    · cases same
      exact head.asks
    · exact Ty.asksTokens rest type member

/-- A constant asks for what the types in it ask for, and for its inline guards. -/
theorem Constant.asks : ∀ (constant : Constant Ty) (depth : Nat),
    Asks limit (constant.expand depth) constant.Shaped (constant.demands depth) constant.unfolded
  -- An inline guard is a step of its own, and no other constant is.
  | .literal value, _ => (Asks.pure (Constant.literal value)).congr (by simp)
  | .panic index, _ => (Asks.pure (Constant.panic index)).congr (by simp)
  | .not operand, depth =>
    ((operand.asks depth).map Constant.not).congr Constant.shaped_not_iff.symm
  | .connect connective left right, depth =>
    ((left.asks depth).map₂ (right.asks depth) (Constant.connect connective)).congr
      Constant.shaped_connect_iff.symm
  | .choose condition positive negative, depth =>
    ((condition.asks depth).map₃ (positive.asks depth) (negative.asks depth) Constant.choose).congr
      Constant.shaped_choose_iff.symm
  | .compare comparison kind left right, depth =>
    ((left.asks depth).map₂ (right.asks depth) (Constant.compare comparison kind)).congr
      Constant.shaped_compare_iff.symm
  | .mention how subject, depth => by
    -- An inline guard takes a step before its type is expanded, and all other mentions take none.
    rw [Constant.expand, Mention.expand, Constant.demands]
    split
    · exact (((subject.asks (depth + 1)).step depth subject).map (Constant.mention how)).congr
        Constant.shaped_mention_iff.symm
    · exact ((subject.asks depth).map (Constant.mention how)).congr
        Constant.shaped_mention_iff.symm

/-- An integer expression asks for what the lists in it ask for. -/
theorem Arith.asks : ∀ (number : Arith Ty) (depth : Nat),
    Asks limit (number.expand depth) number.Shaped (number.demands depth) number.unfolded
  | .literal minus magnitude, _ => (Asks.pure (Arith.literal minus magnitude)).congr (by simp)
  | .least, _ => (Asks.pure Arith.least).congr (by simp)
  | .greatest, _ => (Asks.pure Arith.greatest).congr (by simp)
  | .negate operand, depth =>
    ((operand.asks depth).map Arith.negate).congr Arith.shaped_negate_iff.symm
  | .apply operation left right, depth =>
    ((left.asks depth).map₂ (right.asks depth) (Arith.apply operation)).congr
      Arith.shaped_apply_iff.symm
  | .length kind list, depth =>
    ((list.asks depth).map (Arith.length kind)).congr Arith.shaped_length_iff.symm

/-- The elements of a boolean list ask for what they do as constants of their own. -/
theorem Constant.asksTokens : ∀ (tokens : List (Token (Constant Ty))) (constant : Constant Ty),
    .element constant ∈ tokens → ∀ depth,
      Asks limit (constant.expand depth) constant.Shaped (constant.demands depth) constant.unfolded
  | .comma :: rest, constant, member => Constant.asksTokens rest constant (by simpa using member)
  | .element head :: rest, constant, member => by
    -- The constant is the first one or stands further behind.
    rcases List.mem_cons.mp member with same | member
    · cases same
      exact head.asks
    · exact Constant.asksTokens rest constant member

end

end TypeLists
