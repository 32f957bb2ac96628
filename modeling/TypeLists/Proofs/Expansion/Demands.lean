import TypeLists.Proofs.Parts

/-! The expansion of types without a limit, and what the expansion step by step asks of its limit. -/

namespace TypeLists

/-- What an expansion asks of its limit at one place. -/
inductive Demand where
  /-- A literal of so many elements stands at a depth. -/
  | literal (elements depth : Nat)
  /-- An inline guard stands at a depth. -/
  | guard (depth : Nat)
  deriving DecidableEq

/-- The limit allows what is asked of it. -/
def Demand.Within (limit : Nat) : Demand → Prop
  -- A literal takes a step for each of its elements and one for its end, and a guard takes one step.
  | literal elements depth => depth + elements + 1 ≤ limit
  | guard depth => depth + 1 ≤ limit

instance (limit : Nat) (demand : Demand) : Decidable (demand.Within limit) := by
  cases demand <;> exact inferInstanceAs (Decidable (_ ≤ _))

@[simp] theorem Demand.within_literal {limit elements depth : Nat} :
    (literal elements depth).Within limit ↔ depth + elements + 1 ≤ limit := Iff.rfl

@[simp] theorem Demand.within_guard {limit depth : Nat} :
    (guard depth).Within limit ↔ depth + 1 ≤ limit := Iff.rfl

/-- A limit allows whatever a smaller one does. -/
theorem Demand.Within.mono {demand : Demand} {limit limit' : Nat} (within : demand.Within limit)
    (more : limit ≤ limit') : demand.Within limit' := by
  cases demand with
  | literal elements depth => exact Nat.le_trans within more
  | guard depth => exact Nat.le_trans within more

/-- The smallest limit that allows what is asked. -/
def Demand.least : Demand → Nat
  | literal elements depth => depth + elements + 1
  | guard depth => depth + 1

/-- A demand is allowed by its least limit and by all larger ones. -/
theorem Demand.within_iff {demand : Demand} {limit : Nat} :
    demand.Within limit ↔ demand.least ≤ limit := by
  cases demand <;> rfl

mutual

/-- What the literals and inline guards in a type ask of the limit, if the type stands at a depth. -/
def Ty.demands : Ty → Nat → List Demand
  -- Literals alone lead deeper here: the parts of all other types stand where the types do.
  | .atom _, _ | .named _, _ => []
  | .wrap _ inner, depth => inner.demands depth
  | .cons head tail, depth => head.demands depth ++ tail.demands depth
  | .combine _ left right, depth => left.demands depth ++ right.demands depth
  | .choice condition positive negative, depth =>
    condition.demands depth ++ positive.demands depth ++ negative.demands depth
  | .tuple members, depth => Ty.allDemands members depth
  | .function arguments result, depth => Ty.allDemands arguments depth ++ result.demands depth
  | .bool constant, depth => constant.demands depth
  | .boolCons constant tail, depth => constant.demands depth ++ tail.demands depth
  | .list tokens, depth =>
    .literal (tokens.filterMap Token.value?).length depth :: Ty.tokenDemands tokens (depth + 1)
  | .boolList tokens, depth =>
    .literal (tokens.filterMap Token.value?).length depth ::
      Constant.tokenDemands tokens (depth + 1)
  | .output subject, depth => subject.demands depth
  | .select subject, depth => subject.demands depth

/-- What types that stand at one depth ask of the limit. -/
def Ty.allDemands : List Ty → Nat → List Demand
  | [], _ => []
  | head :: rest, depth => head.demands depth ++ Ty.allDemands rest depth

/-- What the elements of a type list ask of the limit, if the first of them stands at a depth. -/
def Ty.tokenDemands : List (Token Ty) → Nat → List Demand
  -- Every element stands one level below the one before it.
  | [], _ => []
  | .comma :: rest, depth => Ty.tokenDemands rest depth
  | .element head :: rest, depth => head.demands depth ++ Ty.tokenDemands rest (depth + 1)

/-- What the types that a constant names ask of the limit, if the constant stands at a depth. -/
def Constant.demands : Constant Ty → Nat → List Demand
  -- An inline guard is a step of its own, and the type in it stands one level deeper.
  | .literal _, _ | .panic _, _ => []
  | .not operand, depth => operand.demands depth
  | .connect _ left right, depth => left.demands depth ++ right.demands depth
  | .choose condition positive negative, depth =>
    condition.demands depth ++ positive.demands depth ++ negative.demands depth
  | .compare _ _ left right, depth => left.demands depth ++ right.demands depth
  | .mention how subject, depth =>
    if how.isInline then .guard depth :: subject.demands (depth + 1) else subject.demands depth

/-- What the lists that an integer expression measures ask of the limit. -/
def Arith.demands : Arith Ty → Nat → List Demand
  | .literal _ _, _ | .least, _ | .greatest, _ => []
  | .negate operand, depth => operand.demands depth
  | .apply _ left right, depth => left.demands depth ++ right.demands depth
  | .length _ list, depth => list.demands depth

/-- What the elements of a boolean list ask of the limit, if the first of them stands at a depth. -/
def Constant.tokenDemands : List (Token (Constant Ty)) → Nat → List Demand
  -- Every element stands one level below the one before it.
  | [], _ => []
  | .comma :: rest, depth => Constant.tokenDemands rest depth
  | .element head :: rest, depth => head.demands depth ++ Constant.tokenDemands rest (depth + 1)

end

mutual

/-- The type with all its literals replaced by their chains, without a limit. -/
def Ty.unfolded : Ty → Ty
  -- Every former stays as it is, and every literal gives way to a chain of its elements.
  | .atom leaf => .atom leaf
  | .wrap wrapper inner => .wrap wrapper inner.unfolded
  | .cons head tail => .cons head.unfolded tail.unfolded
  | .combine combinator left right => .combine combinator left.unfolded right.unfolded
  | .choice condition positive negative =>
    .choice condition.unfolded positive.unfolded negative.unfolded
  | .tuple members => .tuple (Ty.allUnfolded members)
  | .function arguments result => .function (Ty.allUnfolded arguments) result.unfolded
  | .bool constant => .bool constant.unfolded
  | .boolCons constant tail => .boolCons constant.unfolded tail.unfolded
  | .list tokens => Ty.unfoldedTokens tokens
  | .boolList tokens => Constant.unfoldedTokens tokens
  | .output subject => .output subject.unfolded
  | .select subject => .select subject.unfolded
  | .named name => .named name

/-- The types with all their literals replaced by chains. -/
def Ty.allUnfolded : List Ty → List Ty
  | [] => []
  | head :: rest => head.unfolded :: Ty.allUnfolded rest

/-- The chain of the elements of a type list. -/
def Ty.unfoldedTokens : List (Token Ty) → Ty
  | [] => .nil
  | .comma :: rest => Ty.unfoldedTokens rest
  | .element head :: rest => .cons head.unfolded (Ty.unfoldedTokens rest)

/-- The constant with all literals in the types that it names replaced by chains. -/
def Constant.unfolded : Constant Ty → Constant Ty
  | .literal value => .literal value
  | .not operand => .not operand.unfolded
  | .connect connective left right => .connect connective left.unfolded right.unfolded
  | .choose condition positive negative =>
    .choose condition.unfolded positive.unfolded negative.unfolded
  | .compare comparison kind left right => .compare comparison kind left.unfolded right.unfolded
  | .panic index => .panic index
  | .mention how subject => .mention how subject.unfolded

/-- The integer expression with all literals in the lists that it measures replaced by chains. -/
def Arith.unfolded : Arith Ty → Arith Ty
  | .literal minus magnitude => .literal minus magnitude
  | .least => .least
  | .greatest => .greatest
  | .negate operand => .negate operand.unfolded
  | .apply operation left right => .apply operation left.unfolded right.unfolded
  | .length kind list => .length kind list.unfolded

/-- The chain of the elements of a boolean list. -/
def Constant.unfoldedTokens : List (Token (Constant Ty)) → Ty
  | [] => .boolNil
  | .comma :: rest => Constant.unfoldedTokens rest
  | .element head :: rest => .boolCons head.unfolded (Constant.unfoldedTokens rest)

end

/-- What passes over the commas of a literal is read off the chain of its elements. -/
theorem Token.eq_foldr_of_skips {element chain result : Type} {node : element → chain → chain}
    {last : chain} (run : List (Token element) → result) (read : chain → result)
    (ends : run [] = read last) (skips : ∀ rest, run (.comma :: rest) = run rest)
    (reads : ∀ head rest tail, run rest = read tail → run (.element head :: rest) = read (node head tail))
    (tokens : List (Token element)) :
    run tokens = read ((tokens.filterMap Token.value?).foldr node last) := by
  -- The induction is on the tokens, and a comma leaves the chain of the rest as it is.
  induction tokens with
  | nil => exact ends
  | cons token rest ih =>
    cases token with
    | comma => exact (skips rest).trans ih
    | element head => exact reads head rest _ ih

/-- What elements ask for that stand at depths of their own, the first of them at a given depth. -/
theorem Token.eq_flatMap_of_skips {element demand : Type} {run : List (Token element) → Nat → List demand}
    {demands : element → Nat → List demand} (ends : ∀ depth, run [] depth = [])
    (skips : ∀ rest, run (.comma :: rest) = run rest)
    (reads : ∀ head rest depth,
      run (.element head :: rest) depth = demands head depth ++ run rest (depth + 1))
    (tokens : List (Token element)) (depth : Nat) :
    run tokens depth =
      ((tokens.filterMap Token.value?).zipIdx depth).flatMap fun placed =>
        demands placed.1 placed.2 := by
  induction tokens generalizing depth with
  | nil => exact ends depth
  | cons token rest ih =>
    -- Only an element moves those behind it one level down.
    cases token with
    | comma => exact (congrFun (skips rest) depth).trans (ih depth)
    | element head =>
      rw [reads, ih]
      rfl

/-- The elements of a type list ask for what they do at the depths where they stand. -/
theorem Ty.tokenDemands_eq (tokens : List (Token Ty)) (depth : Nat) :
    Ty.tokenDemands tokens depth =
      ((tokens.filterMap Token.value?).zipIdx depth).flatMap fun placed =>
        placed.1.demands placed.2 :=
  Token.eq_flatMap_of_skips (fun _ => rfl) (fun _ => rfl) (fun _ _ _ => rfl) tokens depth

/-- The elements of a boolean list ask for what they do at the depths where they stand. -/
theorem Constant.tokenDemands_eq (tokens : List (Token (Constant Ty))) (depth : Nat) :
    Constant.tokenDemands tokens depth =
      ((tokens.filterMap Token.value?).zipIdx depth).flatMap fun placed =>
        placed.1.demands placed.2 :=
  Token.eq_flatMap_of_skips (fun _ => rfl) (fun _ => rfl) (fun _ _ _ => rfl) tokens depth

/-- A type list is replaced by the chain of its elements, in which all literals are replaced. -/
theorem Ty.unfoldedTokens_eq (tokens : List (Token Ty)) :
    Ty.unfoldedTokens tokens =
      ((tokens.filterMap Token.value?).map Ty.unfolded).foldr Ty.cons .nil := by
  rw [List.foldr_map]
  refine Token.eq_foldr_of_skips Ty.unfoldedTokens id rfl (fun _ => rfl) (fun _ _ _ same => ?_) tokens
  rw [Ty.unfoldedTokens, same]
  rfl

/-- A boolean list is replaced by the chain of its elements, in which all literals are replaced. -/
theorem Constant.unfoldedTokens_eq (tokens : List (Token (Constant Ty))) :
    Constant.unfoldedTokens tokens =
      ((tokens.filterMap Token.value?).map Constant.unfolded).foldr Ty.boolCons .boolNil := by
  rw [List.foldr_map]
  refine Token.eq_foldr_of_skips Constant.unfoldedTokens id rfl (fun _ => rfl) (fun _ _ _ same => ?_) tokens
  rw [Constant.unfoldedTokens, same]
  rfl

/-- The type is no literal, or one whose tokens write some elements. -/
def Ty.Accepted : Ty → Prop
  | .list tokens => ∃ written, Literal.Writes tokens written
  | .boolList tokens => ∃ written, Literal.Writes tokens written
  | _ => True

/-- Every literal in the type is written by the grammar of literals. -/
def Ty.Shaped (type : Ty) : Prop :=
  ∀ part, type.Contains part → part.Accepted

/-- Every literal in the types that the constant names is written by the grammar of literals. -/
def Constant.Shaped (constant : Constant Ty) : Prop :=
  ∀ type ∈ constant.types, type.Shaped

/-- Every literal in the lists that the expression measures is written by the grammar of literals. -/
def Arith.Shaped (number : Arith Ty) : Prop :=
  ∀ type ∈ number.lists, type.Shaped

/-- A type is shaped exactly if it is accepted itself and its parts are shaped. -/
theorem Ty.shaped_iff {whole : Ty} :
    whole.Shaped ↔ whole.Accepted ∧ ∀ part ∈ whole.parts, part.Shaped := by
  -- What is contained is the type itself or contained in one of its parts.
  constructor
  · intro shaped
    exact ⟨shaped whole (.itself whole), fun part member inner contains =>
      shaped inner (.within member contains)⟩
  · intro both inner contains
    cases contains with
    | itself => exact both.1
    | within member contains => exact both.2 _ member inner contains

section Shaped

variable {constant left' right' : Constant Ty} {number left'' right'' : Arith Ty}
  {head tail left right condition positive negative subject : Ty} {members arguments : List Ty}

-- Whether a term is shaped is read off its own former and its parts.
attribute [local simp] Ty.Accepted Ty.parts Constant.types Arith.lists Constant.Shaped Arith.Shaped

@[simp] theorem Ty.shaped_atom {leaf : Atom} : (Ty.atom leaf).Shaped := by
  rw [shaped_iff]
  simp

@[simp] theorem Ty.shaped_named {name : TypeName} : (Ty.named name).Shaped := by
  rw [shaped_iff]
  simp

@[simp] theorem Ty.shaped_wrap_iff {wrapper : Wrapper} :
    (Ty.wrap wrapper subject).Shaped ↔ subject.Shaped := by
  rw [shaped_iff]
  simp

@[simp] theorem Ty.shaped_cons_iff : (Ty.cons head tail).Shaped ↔ head.Shaped ∧ tail.Shaped := by
  rw [shaped_iff]
  simp

@[simp] theorem Ty.shaped_combine_iff {combinator : Combinator} :
    (Ty.combine combinator left right).Shaped ↔ left.Shaped ∧ right.Shaped := by
  rw [shaped_iff]
  simp

@[simp] theorem Ty.shaped_choice_iff :
    (Ty.choice condition positive negative).Shaped ↔
      condition.Shaped ∧ positive.Shaped ∧ negative.Shaped := by
  rw [shaped_iff]
  simp

@[simp] theorem Ty.shaped_tuple_iff :
    (Ty.tuple members).Shaped ↔ ∀ member ∈ members, member.Shaped := by
  rw [shaped_iff]
  simp

@[simp] theorem Ty.shaped_function_iff :
    (Ty.function arguments subject).Shaped ↔
      (∀ argument ∈ arguments, argument.Shaped) ∧ subject.Shaped := by
  rw [shaped_iff]
  simp [or_imp, forall_and]

@[simp] theorem Ty.shaped_bool_iff : (Ty.bool constant).Shaped ↔ constant.Shaped := by
  rw [shaped_iff]
  simp

@[simp] theorem Ty.shaped_boolCons_iff :
    (Ty.boolCons constant tail).Shaped ↔ constant.Shaped ∧ tail.Shaped := by
  rw [shaped_iff]
  simp [or_imp, forall_and]

@[simp] theorem Ty.shaped_output_iff : (Ty.output subject).Shaped ↔ subject.Shaped := by
  rw [shaped_iff]
  simp

@[simp] theorem Ty.shaped_select_iff : (Ty.select subject).Shaped ↔ subject.Shaped := by
  rw [shaped_iff]
  simp

/-- A type list is shaped exactly if its tokens are accepted and its elements are shaped. -/
theorem Ty.shaped_list_iff {tokens : List (Token Ty)} :
    (Ty.list tokens).Shaped ↔
      (∃ written, Literal.Writes tokens written) ∧
        ∀ type ∈ tokens.filterMap Token.value?, type.Shaped :=
  shaped_iff

/-- A boolean list is shaped exactly if its tokens are accepted and its elements are shaped. -/
theorem Ty.shaped_boolList_iff {tokens : List (Token (Constant Ty))} :
    (Ty.boolList tokens).Shaped ↔
      (∃ written, Literal.Writes tokens written) ∧
        ∀ constant ∈ tokens.filterMap Token.value?, constant.Shaped := by
  -- The parts of a boolean list are the types that its constants name, taken together.
  rw [shaped_iff]
  simp only [Accepted, parts, Constant.Shaped, List.mem_flatMap]
  constructor
  · intro both
    exact ⟨both.1, fun constant member type inside => both.2 type ⟨constant, member, inside⟩⟩
  · intro both
    refine ⟨both.1, ?_⟩
    intro type named
    obtain ⟨constant, member, inside⟩ := named
    exact both.2 constant member type inside

@[simp] theorem Constant.shaped_literal {value : Bool} : (literal value : Constant Ty).Shaped := by
  simp

@[simp] theorem Constant.shaped_panic {index : Nat} : (panic index : Constant Ty).Shaped := by
  simp

@[simp] theorem Constant.shaped_not_iff : constant.not.Shaped ↔ constant.Shaped := Iff.rfl

@[simp] theorem Constant.shaped_connect_iff {connective : Connective} :
    (connect connective left' right').Shaped ↔ left'.Shaped ∧ right'.Shaped := by
  simp [or_imp, forall_and]

@[simp] theorem Constant.shaped_choose_iff :
    (choose constant left' right').Shaped ↔ constant.Shaped ∧ left'.Shaped ∧ right'.Shaped := by
  simp [or_imp, forall_and]

@[simp] theorem Constant.shaped_compare_iff {comparison : Comparison} {kind : IntKind} :
    (compare comparison kind left'' right'').Shaped ↔ left''.Shaped ∧ right''.Shaped := by
  simp [or_imp, forall_and]

@[simp] theorem Constant.shaped_mention_iff {how : Mention} :
    (mention how subject).Shaped ↔ subject.Shaped := by
  simp

@[simp] theorem Arith.shaped_literal {minus : Bool} {magnitude : Nat} :
    (literal minus magnitude : Arith Ty).Shaped := by
  simp

@[simp] theorem Arith.shaped_least : (least : Arith Ty).Shaped := by
  simp

@[simp] theorem Arith.shaped_greatest : (greatest : Arith Ty).Shaped := by
  simp

@[simp] theorem Arith.shaped_negate_iff : number.negate.Shaped ↔ number.Shaped := Iff.rfl

@[simp] theorem Arith.shaped_apply_iff {operation : ArithOp} :
    (apply operation left'' right'').Shaped ↔ left''.Shaped ∧ right''.Shaped := by
  simp [or_imp, forall_and]

@[simp] theorem Arith.shaped_length_iff {kind : ListKind} :
    (length kind subject).Shaped ↔ subject.Shaped := by
  simp

end Shaped

end TypeLists
