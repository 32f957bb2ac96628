import TypeLists.Proofs.Expansion.Limit
import TypeLists.Proofs.Query.Substitution

/-! Literals of types in place of names: they expand exactly if those of the text around the names do, and those
of the types at the depths where the names stand. -/

namespace TypeLists

mutual

/-- The names in a type, each with the depth at which it stands if the type stands at a depth. -/
def Ty.names : Ty → Nat → List (TypeName × Nat)
  -- Depths are those of the expansion: an element of a literal stands below the ones before it.
  | .atom _, _ => []
  | .wrap _ inner, depth => inner.names depth
  | .cons head tail, depth => head.names depth ++ tail.names depth
  | .combine _ left right, depth => left.names depth ++ right.names depth
  | .choice condition positive negative, depth =>
    condition.names depth ++ (positive.names depth ++ negative.names depth)
  | .tuple members, depth => Ty.allNames members depth
  | .function arguments result, depth => Ty.allNames arguments depth ++ result.names depth
  | .bool constant, depth => constant.names depth
  | .boolCons constant tail, depth => constant.names depth ++ tail.names depth
  | .list tokens, depth => Ty.tokenNames tokens (depth + 1)
  | .boolList tokens, depth => Constant.tokenNames tokens (depth + 1)
  | .output subject, depth => subject.names depth
  | .select subject, depth => subject.names depth
  | .named name, depth => [(name, depth)]

/-- The names in some types that stand at one depth. -/
def Ty.allNames : List Ty → Nat → List (TypeName × Nat)
  | [], _ => []
  | head :: rest, depth => head.names depth ++ Ty.allNames rest depth

/-- The names in a type list whose first element stands at a depth. -/
def Ty.tokenNames : List (Token Ty) → Nat → List (TypeName × Nat)
  | [], _ => []
  | .comma :: rest, depth => Ty.tokenNames rest depth
  | .element head :: rest, depth => head.names depth ++ Ty.tokenNames rest (depth + 1)

/-- The names in a constant that stands at a depth. -/
def Constant.names : Constant Ty → Nat → List (TypeName × Nat)
  | .literal _, _ | .panic _, _ => []
  | .not operand, depth => operand.names depth
  | .connect _ left right, depth => left.names depth ++ right.names depth
  | .choose condition positive negative, depth =>
    condition.names depth ++ (positive.names depth ++ negative.names depth)
  | .compare _ _ left right, depth => left.names depth ++ right.names depth
  | .mention how subject, depth => subject.names (if how.isInline then depth + 1 else depth)

/-- The names in an integer expression that stands at a depth. -/
def Arith.names : Arith Ty → Nat → List (TypeName × Nat)
  | .literal _ _, _ | .least, _ | .greatest, _ => []
  | .negate operand, depth => operand.names depth
  | .apply _ left right, depth => left.names depth ++ right.names depth
  | .length _ list, depth => list.names depth

/-- The names in a boolean list whose first element stands at a depth. -/
def Constant.tokenNames : List (Token (Constant Ty)) → Nat → List (TypeName × Nat)
  | [], _ => []
  | .comma :: rest, depth => Constant.tokenNames rest depth
  | .element head :: rest, depth => head.names depth ++ Constant.tokenNames rest (depth + 1)

end

/-- The limit allows some demands of a text whose literals are written by the grammar. -/
def Fitting (limit : Nat) (shaped : Prop) (demands : List Demand) : Prop :=
  shaped ∧ ∀ demand ∈ demands, demand.Within limit

/-- The literals in the type expand at a depth. -/
def Ty.Fits (limit depth : Nat) (type : Ty) : Prop :=
  Fitting limit type.Shaped (type.demands depth)

/-- The literals in the constant expand at a depth. -/
def Constant.Fits (limit depth : Nat) (constant : Constant Ty) : Prop :=
  Fitting limit constant.Shaped (constant.demands depth)

/-- The literals in the integer expression expand at a depth. -/
def Arith.Fits (limit depth : Nat) (number : Arith Ty) : Prop :=
  Fitting limit number.Shaped (number.demands depth)

/-- Types expand wherever some names stand. -/
def FitIn (limit : Nat) (given : TypeName → Ty) (names : List (TypeName × Nat)) : Prop :=
  ∀ hole ∈ names, (given hole.1).Fits limit hole.2

section Fits

variable {limit depth : Nat} {given : TypeName → Ty}

theorem fitting_append_iff {first second : Prop} {demands demands' : List Demand} :
    Fitting limit (first ∧ second) (demands ++ demands') ↔
      Fitting limit first demands ∧ Fitting limit second demands' := by
  rw [Fitting, List.forall_mem_append]
  exact and_and_and_comm

theorem fitIn_append_iff {names names' : List (TypeName × Nat)} :
    FitIn limit given (names ++ names') ↔ FitIn limit given names ∧ FitIn limit given names' :=
  List.forall_mem_append

@[simp] theorem fitting_nil_iff {shaped : Prop} : Fitting limit shaped [] ↔ shaped := by
  simp [Fitting]

section Formers

variable {head tail left right condition positive negative inner : Ty} {types : List Ty}
  {constant constant' constant'' : Constant Ty} {number number' : Arith Ty}

theorem Ty.fits_wrap_iff {wrapper : Wrapper} :
    (Ty.wrap wrapper inner).Fits limit depth ↔ inner.Fits limit depth := by
  rw [Fits, shaped_wrap_iff, Fits, demands]

theorem Ty.fits_cons_iff :
    (Ty.cons head tail).Fits limit depth ↔ head.Fits limit depth ∧ tail.Fits limit depth := by
  rw [Fits, shaped_cons_iff, demands, fitting_append_iff, Fits, Fits]

theorem Ty.fits_combine_iff {combinator : Combinator} :
    (Ty.combine combinator left right).Fits limit depth ↔
      left.Fits limit depth ∧ right.Fits limit depth := by
  rw [Fits, shaped_combine_iff, demands, fitting_append_iff, Fits, Fits]

theorem Ty.fits_choice_iff :
    (Ty.choice condition positive negative).Fits limit depth ↔
      condition.Fits limit depth ∧ positive.Fits limit depth ∧ negative.Fits limit depth := by
  rw [Fits, shaped_choice_iff, demands, List.append_assoc, fitting_append_iff, fitting_append_iff, Fits,
    Fits, Fits]

/-- Types that stand at one depth expand. -/
def Ty.AllFit (limit depth : Nat) (types : List Ty) : Prop :=
  Fitting limit (∀ type ∈ types, type.Shaped) (Ty.allDemands types depth)

theorem Ty.allFit_cons_iff :
    Ty.AllFit limit depth (head :: types) ↔ head.Fits limit depth ∧ Ty.AllFit limit depth types := by
  rw [AllFit, List.forall_mem_cons, allDemands, fitting_append_iff, Fits, AllFit]

theorem Ty.fits_tuple_iff : (Ty.tuple types).Fits limit depth ↔ Ty.AllFit limit depth types := by
  rw [Fits, shaped_tuple_iff, AllFit, demands]

theorem Ty.fits_function_iff :
    (Ty.function types inner).Fits limit depth ↔
      Ty.AllFit limit depth types ∧ inner.Fits limit depth := by
  rw [Fits, shaped_function_iff, demands, fitting_append_iff, Fits, AllFit]

theorem Ty.fits_bool_iff : (Ty.bool constant).Fits limit depth ↔ constant.Fits limit depth := by
  rw [Fits, shaped_bool_iff, Constant.Fits, demands]

theorem Ty.fits_boolCons_iff :
    (Ty.boolCons constant tail).Fits limit depth ↔
      constant.Fits limit depth ∧ tail.Fits limit depth := by
  rw [Fits, shaped_boolCons_iff, demands, fitting_append_iff, Fits, Constant.Fits]

theorem Ty.fits_output_iff : (Ty.output inner).Fits limit depth ↔ inner.Fits limit depth := by
  rw [Fits, shaped_output_iff, Fits, demands]

theorem Ty.fits_select_iff : (Ty.select inner).Fits limit depth ↔ inner.Fits limit depth := by
  rw [Fits, shaped_select_iff, Fits, demands]

theorem Constant.fits_not_iff : constant.not.Fits limit depth ↔ constant.Fits limit depth := by
  rw [Fits, shaped_not_iff, Fits, demands]

theorem Constant.fits_connect_iff {connective : Connective} :
    (Constant.connect connective constant constant').Fits limit depth ↔
      constant.Fits limit depth ∧ constant'.Fits limit depth := by
  rw [Fits, shaped_connect_iff, demands, fitting_append_iff, Fits, Fits]

theorem Constant.fits_choose_iff :
    (Constant.choose constant constant' constant'').Fits limit depth ↔
      constant.Fits limit depth ∧ constant'.Fits limit depth ∧ constant''.Fits limit depth := by
  rw [Fits, shaped_choose_iff, demands, List.append_assoc, fitting_append_iff, fitting_append_iff, Fits,
    Fits, Fits]

theorem Constant.fits_compare_iff {comparison : Comparison} {kind : IntKind} :
    (Constant.compare comparison kind number number').Fits limit depth ↔
      number.Fits limit depth ∧ number'.Fits limit depth := by
  rw [Fits, shaped_compare_iff, demands, fitting_append_iff, Arith.Fits, Arith.Fits]

/-- A mentioned type expands where it stands, which is one level deeper in an inline guard. -/
theorem Constant.fits_mention_iff {how : Mention} :
    (Constant.mention how inner).Fits limit depth ↔
      (how.isInline → depth + 1 ≤ limit) ∧
        inner.Fits limit (if how.isInline then depth + 1 else depth) := by
  rw [Fits, shaped_mention_iff, demands, Ty.Fits]
  cases how.isInline with
  | true => simp [Fitting, and_left_comm]
  | false => simp

theorem Arith.fits_negate_iff : number.negate.Fits limit depth ↔ number.Fits limit depth := by
  rw [Fits, shaped_negate_iff, Fits, demands]

theorem Arith.fits_apply_iff {operation : ArithOp} :
    (Arith.apply operation number number').Fits limit depth ↔
      number.Fits limit depth ∧ number'.Fits limit depth := by
  rw [Fits, shaped_apply_iff, demands, fitting_append_iff, Fits, Fits]

theorem Arith.fits_length_iff {kind : ListKind} :
    (Arith.length kind inner).Fits limit depth ↔ inner.Fits limit depth := by
  rw [Fits, shaped_length_iff, demands, Ty.Fits]

end Formers

section Tokens

variable {element : Type} {written : element → element}

/-- The elements of a type list expand, the first of them at a depth. -/
def Ty.TokensFit (limit depth : Nat) (tokens : List (Token Ty)) : Prop :=
  Fitting limit (∀ type ∈ tokens.filterMap Token.value?, type.Shaped) (Ty.tokenDemands tokens depth)

/-- The elements of a boolean list expand, the first of them at a depth. -/
def Constant.TokensFit (limit depth : Nat) (tokens : List (Token (Constant Ty))) : Prop :=
  Fitting limit (∀ constant ∈ tokens.filterMap Token.value?, constant.Shaped)
    (Constant.tokenDemands tokens depth)

/-- Some tokens are those of a literal that is allowed at a depth. -/
def Literal.Allowed (limit depth : Nat) (tokens : List (Token element)) : Prop :=
  (∃ elements, Literal.Writes tokens elements) ∧
    depth + (tokens.filterMap Token.value?).length + 1 ≤ limit

/-- What the elements are plays no part in whether the literal around them is allowed. -/
theorem Literal.allowed_map_iff {tokens : List (Token element)} :
    Literal.Allowed limit depth (tokens.map (Token.map written)) ↔
      Literal.Allowed limit depth tokens := by
  have count : ((tokens.map (Token.map written)).filterMap Token.value?).length =
      (tokens.filterMap Token.value?).length := by
    rw [List.filterMap_map]
    induction tokens with
    | nil => rfl
    | cons token rest ih => cases token <;> simp_all [Token.map, Token.value?, List.filterMap_cons]
  have written : (∃ images, Writes (tokens.map (Token.map written)) images) ↔
      ∃ elements, Writes tokens elements := by
    simp only [writes_map_iff]
    constructor
    · intro some
      obtain ⟨_, elements, writes, _⟩ := some
      exact ⟨elements, writes⟩
    · intro some
      obtain ⟨elements, writes⟩ := some
      exact ⟨_, elements, writes, rfl⟩
  rw [Allowed, Allowed, count, written]

theorem Ty.fits_list_iff {tokens : List (Token Ty)} :
    (Ty.list tokens).Fits limit depth ↔
      Literal.Allowed limit depth tokens ∧ Ty.TokensFit limit (depth + 1) tokens := by
  rw [Fits, shaped_list_iff, demands, Fitting, List.forall_mem_cons]
  exact and_and_and_comm

theorem Ty.fits_boolList_iff {tokens : List (Token (Constant Ty))} :
    (Ty.boolList tokens).Fits limit depth ↔
      Literal.Allowed limit depth tokens ∧ Constant.TokensFit limit (depth + 1) tokens := by
  rw [Fits, shaped_boolList_iff, demands, Fitting, List.forall_mem_cons]
  exact and_and_and_comm

theorem Ty.tokensFit_element_iff {head : Ty} {rest : List (Token Ty)} :
    Ty.TokensFit limit depth (.element head :: rest) ↔
      head.Fits limit depth ∧ Ty.TokensFit limit (depth + 1) rest := by
  have values : (Token.element head :: rest).filterMap Token.value? =
      head :: rest.filterMap Token.value? := rfl
  rw [TokensFit, values, List.forall_mem_cons, tokenDemands, fitting_append_iff, Fits, TokensFit]

theorem Constant.tokensFit_element_iff {head : Constant Ty} {rest : List (Token (Constant Ty))} :
    Constant.TokensFit limit depth (.element head :: rest) ↔
      head.Fits limit depth ∧ Constant.TokensFit limit (depth + 1) rest := by
  have values : (Token.element head :: rest).filterMap Token.value? =
      head :: rest.filterMap Token.value? := rfl
  rw [TokensFit, values, List.forall_mem_cons, tokenDemands, fitting_append_iff, Fits, TokensFit]

theorem Ty.substituteTokens_eq (tokens : List (Token Ty)) :
    Ty.substituteTokens given tokens = tokens.map (Token.map (Ty.substitute given)) := by
  induction tokens with
  | nil => rfl
  | cons token rest ih => cases token <;> rw [substituteTokens, ih] <;> rfl

theorem Constant.substituteTokens_eq (tokens : List (Token (Constant Ty))) :
    Constant.substituteTokens given tokens = tokens.map (Token.map (Constant.substitute given)) := by
  induction tokens with
  | nil => rfl
  | cons token rest ih => cases token <;> rw [substituteTokens, ih] <;> rfl

end Tokens

mutual

/-- A type with types in place of its names expands exactly if it does, and they do where the names stand. -/
theorem Ty.fits_substitute_iff : ∀ (type : Ty) (depth : Nat), (type.substitute given).Fits limit depth ↔
    type.Fits limit depth ∧ FitIn limit given (type.names depth)
  -- The depths of the names are those that the expansion comes to.
  | .atom _, depth => by simp [Ty.substitute, Ty.Fits, Ty.names, Ty.demands, FitIn]
  | .wrap wrapper inner, depth => by
    rw [Ty.substitute, Ty.fits_wrap_iff, Ty.fits_wrap_iff, inner.fits_substitute_iff, Ty.names]
  | .cons head tail, depth => by
    rw [Ty.substitute, Ty.fits_cons_iff, Ty.fits_cons_iff, head.fits_substitute_iff,
      tail.fits_substitute_iff, Ty.names, fitIn_append_iff]
    exact and_and_and_comm
  | .combine combinator left right, depth => by
    rw [Ty.substitute, Ty.fits_combine_iff, Ty.fits_combine_iff, left.fits_substitute_iff,
      right.fits_substitute_iff, Ty.names, fitIn_append_iff]
    exact and_and_and_comm
  | .choice condition positive negative, depth => by
    rw [Ty.substitute, Ty.fits_choice_iff, Ty.fits_choice_iff, condition.fits_substitute_iff,
      positive.fits_substitute_iff, negative.fits_substitute_iff, Ty.names, fitIn_append_iff,
      fitIn_append_iff]
    tauto
  | .tuple members, depth => by
    rw [Ty.substitute, Ty.fits_tuple_iff, Ty.fits_tuple_iff, Ty.allFit_substitute_iff members, Ty.names]
  | .function arguments result, depth => by
    rw [Ty.substitute, Ty.fits_function_iff, Ty.fits_function_iff, Ty.allFit_substitute_iff arguments,
      result.fits_substitute_iff, Ty.names, fitIn_append_iff]
    exact and_and_and_comm
  | .bool constant, depth => by
    rw [Ty.substitute, Ty.fits_bool_iff, Ty.fits_bool_iff, constant.fits_substitute_iff, Ty.names]
  | .boolCons constant tail, depth => by
    rw [Ty.substitute, Ty.fits_boolCons_iff, Ty.fits_boolCons_iff, constant.fits_substitute_iff,
      tail.fits_substitute_iff, Ty.names, fitIn_append_iff]
    exact and_and_and_comm
  | .list tokens, depth => by
    rw [Ty.substitute, Ty.fits_list_iff, Ty.fits_list_iff, Ty.tokensFit_substitute_iff tokens,
      Ty.substituteTokens_eq, Literal.allowed_map_iff, Ty.names, and_assoc]
  | .boolList tokens, depth => by
    rw [Ty.substitute, Ty.fits_boolList_iff, Ty.fits_boolList_iff,
      Constant.tokensFit_substitute_iff tokens, Constant.substituteTokens_eq, Literal.allowed_map_iff,
      Ty.names, and_assoc]
  | .output subject, depth => by
    rw [Ty.substitute, Ty.fits_output_iff, Ty.fits_output_iff, subject.fits_substitute_iff, Ty.names]
  | .select subject, depth => by
    rw [Ty.substitute, Ty.fits_select_iff, Ty.fits_select_iff, subject.fits_substitute_iff, Ty.names]
  | .named name, depth => by simp [Ty.substitute, Ty.Fits, Ty.names, Ty.demands, FitIn, Fitting]

/-- Types with types in place of their names expand exactly if all of them do. -/
theorem Ty.allFit_substitute_iff : ∀ (types : List Ty) (depth : Nat),
    Ty.AllFit limit depth (Ty.substituteAll given types) ↔
      Ty.AllFit limit depth types ∧ FitIn limit given (Ty.allNames types depth)
  | [], depth => by simp [Ty.substituteAll, Ty.AllFit, Ty.allNames, Ty.allDemands, FitIn]
  | head :: rest, depth => by
    rw [Ty.substituteAll, Ty.allFit_cons_iff, Ty.allFit_cons_iff, head.fits_substitute_iff,
      Ty.allFit_substitute_iff rest, Ty.allNames, fitIn_append_iff]
    exact and_and_and_comm

/-- The elements of a type list expand with types in place of names exactly if all of them do. -/
theorem Ty.tokensFit_substitute_iff : ∀ (tokens : List (Token Ty)) (depth : Nat),
    Ty.TokensFit limit depth (Ty.substituteTokens given tokens) ↔
      Ty.TokensFit limit depth tokens ∧ FitIn limit given (Ty.tokenNames tokens depth)
  | [], depth => by simp [Ty.substituteTokens, Ty.TokensFit, Ty.tokenNames, Ty.tokenDemands, FitIn]
  | .comma :: rest, depth => Ty.tokensFit_substitute_iff rest depth
  | .element head :: rest, depth => by
    rw [Ty.substituteTokens, Ty.tokensFit_element_iff, Ty.tokensFit_element_iff, head.fits_substitute_iff,
      Ty.tokensFit_substitute_iff rest, Ty.tokenNames, fitIn_append_iff]
    exact and_and_and_comm

/-- A constant with types in place of its names expands exactly if it and they do. -/
theorem Constant.fits_substitute_iff : ∀ (constant : Constant Ty) (depth : Nat),
    (constant.substitute given).Fits limit depth ↔
      constant.Fits limit depth ∧ FitIn limit given (constant.names depth)
  | .literal _, depth | .panic _, depth => by
    simp [Constant.substitute, Constant.Fits, Constant.names, Constant.demands, FitIn]
  | .not operand, depth => by
    rw [Constant.substitute, Constant.fits_not_iff, Constant.fits_not_iff, operand.fits_substitute_iff,
      Constant.names]
  | .connect connective left right, depth => by
    rw [Constant.substitute, Constant.fits_connect_iff, Constant.fits_connect_iff,
      left.fits_substitute_iff, right.fits_substitute_iff, Constant.names, fitIn_append_iff]
    exact and_and_and_comm
  | .choose condition positive negative, depth => by
    rw [Constant.substitute, Constant.fits_choose_iff, Constant.fits_choose_iff,
      condition.fits_substitute_iff, positive.fits_substitute_iff, negative.fits_substitute_iff,
      Constant.names, fitIn_append_iff, fitIn_append_iff]
    tauto
  | .compare comparison kind left right, depth => by
    rw [Constant.substitute, Constant.fits_compare_iff, Constant.fits_compare_iff,
      left.fits_substitute_iff, right.fits_substitute_iff, Constant.names, fitIn_append_iff]
    exact and_and_and_comm
  | .mention how subject, depth => by
    rw [Constant.substitute, Constant.fits_mention_iff, Constant.fits_mention_iff,
      subject.fits_substitute_iff, Constant.names, and_assoc]

/-- An integer expression with types in place of its names expands exactly if it and they do. -/
theorem Arith.fits_substitute_iff : ∀ (number : Arith Ty) (depth : Nat),
    (number.substitute given).Fits limit depth ↔
      number.Fits limit depth ∧ FitIn limit given (number.names depth)
  | .literal _ _, depth | .least, depth | .greatest, depth => by
    simp [Arith.substitute, Arith.Fits, Arith.names, Arith.demands, FitIn]
  | .negate operand, depth => by
    rw [Arith.substitute, Arith.fits_negate_iff, Arith.fits_negate_iff, operand.fits_substitute_iff,
      Arith.names]
  | .apply operation left right, depth => by
    rw [Arith.substitute, Arith.fits_apply_iff, Arith.fits_apply_iff, left.fits_substitute_iff,
      right.fits_substitute_iff, Arith.names, fitIn_append_iff]
    exact and_and_and_comm
  | .length kind list, depth => by
    rw [Arith.substitute, Arith.fits_length_iff, Arith.fits_length_iff, list.fits_substitute_iff,
      Arith.names]

/-- The elements of a boolean list expand with types in place of names exactly if all of them do. -/
theorem Constant.tokensFit_substitute_iff : ∀ (tokens : List (Token (Constant Ty))) (depth : Nat),
    Constant.TokensFit limit depth (Constant.substituteTokens given tokens) ↔
      Constant.TokensFit limit depth tokens ∧ FitIn limit given (Constant.tokenNames tokens depth)
  | [], depth => by
    simp [Constant.substituteTokens, Constant.TokensFit, Constant.tokenNames, Constant.tokenDemands, FitIn]
  | .comma :: rest, depth => Constant.tokensFit_substitute_iff rest depth
  | .element head :: rest, depth => by
    rw [Constant.substituteTokens, Constant.tokensFit_element_iff, Constant.tokensFit_element_iff,
      head.fits_substitute_iff, Constant.tokensFit_substitute_iff rest, Constant.tokenNames,
      fitIn_append_iff]
    exact and_and_and_comm

end

namespace Query

/-- The names in a query, with the depths at which they stand. -/
def names : Query → List (TypeName × Nat)
  -- Every type of a query stands at the outermost level.
  | .length _ subject | .name subject | .implements _ subject | .mention subject
  | .adapts _ subject | .matchEmpty subject | .layout subject => subject.names 0
  | .sameIdentity left right | .assertSame left right | .witness left right =>
    left.names 0 ++ right.names 0
  | .value _ constant => constant.names 0
  | .forge _ => []
  | .generic function =>
    function.body.names 0 ++ function.calls.flatMap fun call => call.1.names 0 ++ call.2.names 0

/-- The literals in the query expand. -/
def Fits (limit : Nat) (query : Query) : Prop :=
  Fitting limit query.Shaped query.demands

/-- The types of calls expand with types in place of names exactly if they and these types do. -/
theorem fitting_calls_iff (calls : List (Ty × Ty)) :
    Fitting limit
        (∀ call ∈ calls.map fun call => (call.1.substitute given, call.2.substitute given),
          call.1.Shaped ∧ call.2.Shaped)
        ((calls.map fun call => (call.1.substitute given, call.2.substitute given)).flatMap fun call =>
          call.1.demands 0 ++ call.2.demands 0) ↔
      Fitting limit (∀ call ∈ calls, call.1.Shaped ∧ call.2.Shaped)
          (calls.flatMap fun call => call.1.demands 0 ++ call.2.demands 0) ∧
        FitIn limit given (calls.flatMap fun call => call.1.names 0 ++ call.2.names 0) := by
  induction calls with
  | nil => simp [Fitting, FitIn]
  | cons call rest ih =>
    have first : (call.1.substitute given).Fits limit 0 ↔
        call.1.Fits limit 0 ∧ FitIn limit given (call.1.names 0) := call.1.fits_substitute_iff 0
    have second : (call.2.substitute given).Fits limit 0 ↔
        call.2.Fits limit 0 ∧ FitIn limit given (call.2.names 0) := call.2.fits_substitute_iff 0
    rw [Ty.Fits, Ty.Fits] at first second
    simp only [List.map_cons, List.forall_mem_cons, List.flatMap_cons, fitting_append_iff,
      fitIn_append_iff, ih, first, second]
    tauto

/-- A query with types in place of its names expands exactly if it does, and they do where the names stand. -/
theorem fits_substitute_iff (query : Query) :
    (query.substitute given).Fits limit ↔ query.Fits limit ∧ FitIn limit given query.names := by
  have pair (left right : Ty) :
      Fitting limit ((left.substitute given).Shaped ∧ (right.substitute given).Shaped)
          ((left.substitute given).demands 0 ++ (right.substitute given).demands 0) ↔
        Fitting limit (left.Shaped ∧ right.Shaped) (left.demands 0 ++ right.demands 0) ∧
          FitIn limit given (left.names 0 ++ right.names 0) := by
    rw [fitting_append_iff, fitting_append_iff, fitIn_append_iff]
    refine (and_congr (left.fits_substitute_iff 0) (right.fits_substitute_iff 0)).trans ?_
    exact and_and_and_comm
  cases query with
  | length kind subject => exact subject.fits_substitute_iff 0
  | name subject => exact subject.fits_substitute_iff 0
  | sameIdentity left right => exact pair left right
  | assertSame left right => exact pair left right
  | witness left right => exact pair left right
  | value place constant => exact constant.fits_substitute_iff 0
  | implements trait subject => exact subject.fits_substitute_iff 0
  | mention subject => exact subject.fits_substitute_iff 0
  | adapts direction subject => exact subject.fits_substitute_iff 0
  | matchEmpty subject => exact subject.fits_substitute_iff 0
  | layout subject => exact subject.fits_substitute_iff 0
  | forge attempt => simp [substitute, Fits, Fitting, Shaped, demands, names, FitIn]
  | generic function =>
    rw [substitute, Fits, Shaped, demands, names, fitting_append_iff, fitIn_append_iff]
    refine (and_congr (function.body.fits_substitute_iff 0) (fitting_calls_iff function.calls)).trans ?_
    rw [Fits, Shaped, demands, fitting_append_iff]
    exact and_and_and_comm

end Query

/-- The literals in all aliases of the program expand. -/
def Program.AliasesFit (program : Program) : Prop :=
  ∀ definition ∈ program.aliases, definition.2.Fits program.limit 0

/-- The expansion of a query goes right exactly if those of the aliases and of its own literals do. -/
theorem Program.expands_iff {program : Program} {query : Query} :
    (program.expansion query).error? = none ↔ program.AliasesFit ∧ query.Fits program.limit := by
  rw [error?_expansion_eq_none_iff, Shaped, demands, List.forall_mem_append]
  simp only [AliasesFit, Query.Fits, Ty.Fits, Fitting, List.forall_mem_flatMap, forall_and]
  exact and_and_and_comm

end Fits

end TypeLists
