import TypeLists.Proofs.Normalization.Unfolding

/-! Contexts: a type with a hole in it, which a name marks. What a filled context is depends on the filling
only through the normal form of that. -/

namespace TypeLists

mutual

/-- The type with a type in place of every name. -/
def Ty.substitute (given : TypeName → Ty) : Ty → Ty
  -- Names in types and in the constants of types are replaced, and all else stays in its place.
  | .atom leaf => .atom leaf
  | .wrap wrapper inner => .wrap wrapper (inner.substitute given)
  | .cons head tail => .cons (head.substitute given) (tail.substitute given)
  | .combine combinator left right =>
    .combine combinator (left.substitute given) (right.substitute given)
  | .choice condition positive negative =>
    .choice (condition.substitute given) (positive.substitute given) (negative.substitute given)
  | .tuple members => .tuple (Ty.substituteAll given members)
  | .function arguments result => .function (Ty.substituteAll given arguments) (result.substitute given)
  | .bool constant => .bool (constant.substitute given)
  | .boolCons constant tail => .boolCons (constant.substitute given) (tail.substitute given)
  | .list tokens => .list (Ty.substituteTokens given tokens)
  | .boolList tokens => .boolList (Constant.substituteTokens given tokens)
  | .output subject => .output (subject.substitute given)
  | .select subject => .select (subject.substitute given)
  | .named name => given name

/-- Some types with a type in place of every name. -/
def Ty.substituteAll (given : TypeName → Ty) : List Ty → List Ty
  | [] => []
  | head :: rest => head.substitute given :: Ty.substituteAll given rest

/-- The tokens of a type list with a type in place of every name. -/
def Ty.substituteTokens (given : TypeName → Ty) : List (Token Ty) → List (Token Ty)
  | [] => []
  | .comma :: rest => .comma :: Ty.substituteTokens given rest
  | .element head :: rest => .element (head.substitute given) :: Ty.substituteTokens given rest

/-- The constant with a type in place of every name. -/
def Constant.substitute (given : TypeName → Ty) : Constant Ty → Constant Ty
  | .literal value => .literal value
  | .not operand => .not (operand.substitute given)
  | .connect connective left right =>
    .connect connective (left.substitute given) (right.substitute given)
  | .choose condition positive negative =>
    .choose (condition.substitute given) (positive.substitute given) (negative.substitute given)
  | .compare comparison kind left right =>
    .compare comparison kind (left.substitute given) (right.substitute given)
  | .panic index => .panic index
  | .mention how subject => .mention how (subject.substitute given)

/-- The integer expression with a type in place of every name. -/
def Arith.substitute (given : TypeName → Ty) : Arith Ty → Arith Ty
  | .literal minus magnitude => .literal minus magnitude
  | .least => .least
  | .greatest => .greatest
  | .negate operand => .negate (operand.substitute given)
  | .apply operation left right =>
    .apply operation (left.substitute given) (right.substitute given)
  | .length kind list => .length kind (list.substitute given)

/-- The tokens of a boolean list with a type in place of every name. -/
def Constant.substituteTokens (given : TypeName → Ty) :
    List (Token (Constant Ty)) → List (Token (Constant Ty))
  | [] => []
  | .comma :: rest => .comma :: Constant.substituteTokens given rest
  | .element head :: rest =>
    .element (head.substitute given) :: Constant.substituteTokens given rest

end

/-- The scope in which every name stands for what a type given for it stands for. -/
def Scope.giving (scope : Scope) (given : TypeName → Ty) : Scope :=
  { scope with meaning := fun name => (given name).normalize scope }

namespace Scope

variable (scope : Scope) (given : TypeName → Ty)

@[simp] theorem limit_giving : (scope.giving given).limit = scope.limit := rfl

@[simp] theorem wrapped_giving (wrapper : Wrapper) (inner : Form) :
    Form.wrapped (scope.giving given) wrapper inner = Form.wrapped scope wrapper inner := rfl

end Scope

section Substitute

variable {scope : Scope} {given : TypeName → Ty}

mutual

/-- A filled context is normalized as the context is where its hole stands for what fills it. -/
theorem Ty.normalize_substitute : ∀ type : Ty, (type.substitute given).normalize scope =
    type.normalize (scope.giving given)
  -- The filling is normalized anew wherever it stands, and always in the same scope.
  | .atom _ => rfl
  | .wrap wrapper inner => by
    simp only [Ty.substitute, Ty.normalize, inner.normalize_substitute, Scope.wrapped_giving]
  | .cons head tail => by
    simp only [Ty.substitute, Ty.normalize, head.normalize_substitute, tail.normalize_substitute,
      Scope.limit_giving]
  | .combine combinator left right => by
    simp only [Ty.substitute, Ty.normalize, left.normalize_substitute, right.normalize_substitute,
      Scope.limit_giving]
  | .choice condition positive negative => by
    simp only [Ty.substitute, Ty.normalize, condition.normalize_substitute, positive.normalize_substitute,
      negative.normalize_substitute, Scope.limit_giving]
  | .tuple members => by
    simp only [Ty.substitute, Ty.normalize, Ty.normalizeAll_substitute members, Scope.limit_giving]
  | .function arguments result => by
    simp only [Ty.substitute, Ty.normalize, Ty.normalizeAll_substitute arguments, result.normalize_substitute,
      Scope.limit_giving]
  | .bool constant => by
    simp only [Ty.substitute, Ty.normalize, constant.normalize_substitute, Scope.limit_giving]
  | .boolCons constant tail => by
    simp only [Ty.substitute, Ty.normalize, constant.normalize_substitute, tail.normalize_substitute,
      Scope.limit_giving]
  | .list tokens => by rw [Ty.substitute, Ty.normalize, Ty.normalize, Ty.normalizeTokens_substitute tokens]
  | .boolList tokens => by
    rw [Ty.substitute, Ty.normalize, Ty.normalize, Constant.normalizeTokens_substitute tokens]
  | .output subject => by
    simp only [Ty.substitute, Ty.normalize, subject.normalize_substitute, Scope.limit_giving]
  | .select subject => by
    simp only [Ty.substitute, Ty.normalize, subject.normalize_substitute, Scope.limit_giving]
  | .named _ => rfl

/-- Some filled contexts are normalized as the contexts are. -/
theorem Ty.normalizeAll_substitute : ∀ types : List Ty,
    Ty.normalizeAll scope (Ty.substituteAll given types) =
      Ty.normalizeAll (scope.giving given) types
  | [] => rfl
  | head :: rest => by
    simp only [Ty.substituteAll, Ty.normalizeAll, head.normalize_substitute, Ty.normalizeAll_substitute rest]

/-- A filled type list is normalized as the unfilled one is. -/
theorem Ty.normalizeTokens_substitute : ∀ tokens : List (Token Ty),
    Ty.normalizeTokens scope (Ty.substituteTokens given tokens) =
      Ty.normalizeTokens (scope.giving given) tokens
  | [] => rfl
  | .comma :: rest => by
    simp only [Ty.substituteTokens, Ty.normalizeTokens, Ty.normalizeTokens_substitute rest]
  | .element head :: rest => by
    simp only [Ty.substituteTokens, Ty.normalizeTokens, head.normalize_substitute,
      Ty.normalizeTokens_substitute rest, Scope.limit_giving]

/-- A filled constant is normalized as the unfilled one is. -/
theorem Constant.normalize_substitute : ∀ constant : Constant Ty,
    (constant.substitute given).normalize scope =
      constant.normalize (scope.giving given)
  -- Mentions are held against their rules after the filling, as if it had always stood there.
  | .literal _ | .panic _ => rfl
  | .not operand => by simp only [Constant.substitute, Constant.normalize, operand.normalize_substitute]
  | .connect connective left right => by
    simp only [Constant.substitute, Constant.normalize, left.normalize_substitute, right.normalize_substitute]
  | .choose condition positive negative => by
    simp only [Constant.substitute, Constant.normalize, condition.normalize_substitute,
      positive.normalize_substitute, negative.normalize_substitute]
  | .compare comparison kind left right => by
    simp only [Constant.substitute, Constant.normalize, left.normalize_substitute, right.normalize_substitute]
  | .mention how subject => by
    simp only [Constant.substitute, Constant.normalize, subject.normalize_substitute, Scope.limit_giving]

/-- A filled integer expression is normalized as the unfilled one is. -/
theorem Arith.normalize_substitute : ∀ number : Arith Ty,
    (number.substitute given).normalize scope =
      number.normalize (scope.giving given)
  | .literal _ _ | .least | .greatest => rfl
  | .negate operand => by simp only [Arith.substitute, Arith.normalize, operand.normalize_substitute]
  | .apply operation left right => by
    simp only [Arith.substitute, Arith.normalize, left.normalize_substitute, right.normalize_substitute]
  | .length kind list => by
    simp only [Arith.substitute, Arith.normalize, list.normalize_substitute, Scope.limit_giving]

/-- A filled boolean list is normalized as the unfilled one is. -/
theorem Constant.normalizeTokens_substitute : ∀ tokens : List (Token (Constant Ty)),
    Constant.normalizeTokens scope (Constant.substituteTokens given tokens) =
      Constant.normalizeTokens (scope.giving given) tokens
  | [] => rfl
  | .comma :: rest => by
    simp only [Constant.substituteTokens, Constant.normalizeTokens, Constant.normalizeTokens_substitute rest]
  | .element head :: rest => by
    simp only [Constant.substituteTokens, Constant.normalizeTokens, head.normalize_substitute,
      Constant.normalizeTokens_substitute rest, Scope.limit_giving]

end

end Substitute

/-- The type that a name is replaced by, if one name alone is replaced. -/
def TypeName.replaced (name : TypeName) (other : Ty) (hole : TypeName) : Ty :=
  if hole = name then other else .named hole

/-- The context with a type in its hole, which a name marks. -/
def Ty.fill (context : Ty) (name : TypeName) (other : Ty) : Ty :=
  context.substitute (name.replaced other)

/-- The constant with a type in its hole, which a name marks. -/
def Constant.fill (context : Constant Ty) (name : TypeName) (other : Ty) : Constant Ty :=
  context.substitute (name.replaced other)

/-- What fills a hole plays a part only through what it is normalized to. -/
theorem Scope.giving_replaced {scope : Scope} {name : TypeName} {type other : Ty}
    (same : type.normalize scope = other.normalize scope) :
    scope.giving (name.replaced type) = scope.giving (name.replaced other) := by
  -- Apart from the meanings of names, the two scopes are one.
  unfold giving
  congr 1
  funext hole
  by_cases marked : hole = name
  · simp only [TypeName.replaced, if_pos marked, same]
  · simp only [TypeName.replaced, if_neg marked]

namespace Program

variable {program : Program} {context type other : Ty} {name : TypeName} {form whole : Form}

/-- A type and another one with the same normal form fill a context alike, where both expand in it. -/
theorem Gives.fill (gives : program.Gives type form) (gives' : program.Gives other form)
    (expands : program.Expands (context.fill name other))
    (filled : program.Gives (context.fill name type) whole) :
    program.Gives (context.fill name other) whole := by
  -- The hole stands for the same normal form both times, and for no findings.
  obtain ⟨_, scope, opens, clean⟩ := gives_iff.mp gives
  obtain ⟨_, scope', opens', clean'⟩ := gives_iff.mp gives'
  obtain ⟨_, scope'', opens'', filledClean⟩ := gives_iff.mp filled
  cases opens.unique opens'
  cases opens.unique opens''
  refine gives_iff.mpr ⟨expands, scope, opens, ?_⟩
  rw [Ty.fill, Ty.normalize_substitute] at filledClean ⊢
  rw [← filledClean, Scope.giving_replaced (clean.trans clean'.symm)]

end Program

end TypeLists
