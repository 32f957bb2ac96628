import TypeLists.Proofs.Aliases.Obligations
import TypeLists.Proofs.Expansion.Parts
import TypeLists.Proofs.Generic.Calls

/-! Types in which all lists are written as literals: where these expand, every list in the type is short
enough to be proved one. -/

namespace TypeLists

section Uses

variable {name : TypeName}

theorem Arith.uses_of_mem_lists {number : Arith Ty} {type : Ty} (member : type ∈ number.lists)
    (used : type.uses name ≠ []) : number.uses name ≠ [] := by
  induction number with
  | literal _ _ | least | greatest => exact absurd member List.not_mem_nil
  | negate operand ih => exact ih member
  | apply operation left right ih ih' =>
    rw [Arith.uses, ne_eq, List.append_eq_nil_iff, not_and_or]
    exact (List.mem_append.mp member).imp ih ih'
  | length kind list =>
    rw [List.mem_singleton.mp member] at used
    exact used

theorem Constant.uses_of_mem_types {constant : Constant Ty} {type : Ty} (member : type ∈ constant.types)
    (used : type.uses name ≠ []) : constant.uses name ≠ [] := by
  induction constant with
  | literal _ | panic _ => exact absurd member List.not_mem_nil
  | not operand ih => exact ih member
  | connect connective left right ih ih' =>
    rw [Constant.uses, ne_eq, List.append_eq_nil_iff, not_and_or]
    exact (List.mem_append.mp member).imp ih ih'
  | choose condition positive negative ih ih' ih'' =>
    rw [Constant.types, List.append_assoc] at member
    rw [Constant.uses, ne_eq, List.append_eq_nil_iff, not_and_or, List.append_eq_nil_iff, not_and_or]
    exact (List.mem_append.mp member).imp ih fun member => (List.mem_append.mp member).imp ih' ih''
  | compare comparison kind left right =>
    rw [Constant.uses, ne_eq, List.append_eq_nil_iff, not_and_or]
    exact (List.mem_append.mp member).imp (fun member => Arith.uses_of_mem_lists member used)
      fun member => Arith.uses_of_mem_lists member used
  | mention how subject =>
    rw [List.mem_singleton.mp member] at used
    exact (Scope.uses_mention how subject name).mp used

theorem Ty.uses_of_mem_all {types : List Ty} {type : Ty} (member : type ∈ types)
    (used : type.uses name ≠ []) : Ty.allUses name types ≠ [] := by
  induction types with
  | nil => exact absurd member List.not_mem_nil
  | cons head rest ih =>
    rw [Ty.allUses, ne_eq, List.append_eq_nil_iff, not_and_or]
    rcases List.mem_cons.mp member with rfl | member
    · exact .inl used
    · exact .inr (ih member)

theorem Ty.uses_of_mem_tokens {tokens : List (Token Ty)} {type : Ty}
    (member : type ∈ tokens.filterMap Token.value?) (used : type.uses name ≠ []) :
    Ty.tokenUses name tokens ≠ [] := by
  induction tokens with
  | nil => exact absurd member List.not_mem_nil
  | cons token rest ih =>
    cases token with
    | comma => exact ih member
    | element head =>
      rw [Ty.tokenUses, ne_eq, List.append_eq_nil_iff, not_and_or]
      rcases List.mem_cons.mp member with rfl | member
      · exact .inl used
      · exact .inr (ih member)

theorem Constant.uses_of_mem_tokens {tokens : List (Token (Constant Ty))} {type : Ty}
    (member : type ∈ (tokens.filterMap Token.value?).flatMap Constant.types)
    (used : type.uses name ≠ []) : Constant.tokenUses name tokens ≠ [] := by
  induction tokens with
  | nil => exact absurd member List.not_mem_nil
  | cons token rest ih =>
    cases token with
    | comma => exact ih member
    | element head =>
      rw [Constant.tokenUses, ne_eq, List.append_eq_nil_iff, not_and_or]
      rcases List.mem_append.mp member with member | member
      · exact .inl (Constant.uses_of_mem_types member used)
      · exact .inr (ih member)

/-- A name that a part of a type uses is used by the type. -/
theorem Ty.uses_of_mem_parts {whole part : Ty} (member : part ∈ whole.parts) (used : part.uses name ≠ []) :
    whole.uses name ≠ [] := by
  cases whole with
  | atom _ | named _ => exact absurd member List.not_mem_nil
  | wrap _ inner | output inner | select inner =>
    rw [List.mem_singleton.mp member] at used
    exact used
  | cons head tail | combine _ head tail =>
    rw [Ty.uses, ne_eq, List.append_eq_nil_iff, not_and_or]
    simp only [Ty.parts, List.mem_cons, List.not_mem_nil, or_false] at member
    rcases member with rfl | rfl
    · exact .inl used
    · exact .inr used
  | choice condition positive negative =>
    rw [Ty.uses, ne_eq, List.append_eq_nil_iff, not_and_or, List.append_eq_nil_iff, not_and_or]
    simp only [Ty.parts, List.mem_cons, List.not_mem_nil, or_false] at member
    rcases member with rfl | rfl | rfl
    · exact .inl used
    · exact .inr (.inl used)
    · exact .inr (.inr used)
  | tuple members => exact uses_of_mem_all member used
  | function arguments result =>
    rw [Ty.uses, ne_eq, List.append_eq_nil_iff, not_and_or]
    rcases List.mem_append.mp member with member | member
    · exact .inl (uses_of_mem_all member used)
    · rw [List.mem_singleton.mp member] at used
      exact .inr used
  | bool constant => exact Constant.uses_of_mem_types member used
  | boolCons constant tail =>
    rw [Ty.uses, ne_eq, List.append_eq_nil_iff, not_and_or]
    rcases List.mem_append.mp member with member | member
    · exact .inl (Constant.uses_of_mem_types member used)
    · rw [List.mem_singleton.mp member] at used
      exact .inr used
  | list tokens => exact uses_of_mem_tokens member used
  | boolList tokens => exact Constant.uses_of_mem_tokens member used

theorem Ty.Contains.uses {whole part : Ty} (contains : whole.Contains part) (used : part.uses name ≠ []) :
    whole.uses name ≠ [] := by
  induction contains with
  | itself => exact used
  | within member _ ih => exact uses_of_mem_parts member (ih used)

end Uses

/-- No proof that a part of the form is a list is deeper than the limit. -/
def Form.Short (limit : Nat) (form : Form) : Prop :=
  ∀ part, form.Contains part → ∀ kind, part.listDepth kind ≤ limit

/-- All lists in a form are short exactly if the form is, and those in its parts are. -/
theorem Form.short_iff {limit : Nat} {whole : Form} : whole.Short limit ↔
    (∀ kind, whole.listDepth kind ≤ limit) ∧ ∀ part ∈ whole.parts, part.Short limit := by
  constructor
  · intro short
    exact ⟨short whole (.itself whole), fun part member inner contains =>
      short inner (.within member contains)⟩
  · rintro ⟨own, parts⟩ inner contains
    cases contains with
    | itself => exact own
    | within member contains => exact parts _ member inner contains

/-- A list literal that the limit allows, or a name of a form without long lists; but no node of a list. -/
def Ty.Curt (scope : Scope) : Ty → Prop
  | .cons _ _ | .boolCons _ _ => False
  | .list tokens => (tokens.filterMap Token.value?).length < scope.limit
  | .boolList tokens => (tokens.filterMap Token.value?).length < scope.limit
  | .named name => (scope.meaning name).value.Short scope.limit
  | _ => True

/-- All parts of the type are curt. -/
def Ty.Short (scope : Scope) (type : Ty) : Prop :=
  ∀ part, type.Contains part → part.Curt scope

def Constant.Short (scope : Scope) (constant : Constant Ty) : Prop :=
  ∀ type ∈ constant.types, type.Short scope

def Arith.Short (scope : Scope) (number : Arith Ty) : Prop :=
  ∀ type ∈ number.lists, type.Short scope

section Short

variable {scope : Scope}

theorem Ty.short_iff {whole : Ty} :
    whole.Short scope ↔ whole.Curt scope ∧ ∀ part ∈ whole.parts, part.Short scope := by
  constructor
  · intro short
    exact ⟨short whole (.itself whole), fun part member inner contains =>
      short inner (.within member contains)⟩
  · rintro ⟨own, parts⟩ inner contains
    cases contains with
    | itself => exact own
    | within member contains => exact parts _ member inner contains

/-- A part of a type without long lists has none. -/
theorem Ty.Short.part {whole part : Ty} (short : whole.Short scope) (member : part ∈ whole.parts) :
    part.Short scope :=
  (Ty.short_iff.mp short).2 part member

theorem Ty.Short.afterComma {rest : List (Token Ty)} (short : (Ty.list (.comma :: rest)).Short scope) :
    (Ty.list rest).Short scope := by
  obtain ⟨own, parts⟩ := Ty.short_iff.mp short
  exact Ty.short_iff.mpr ⟨own, parts⟩

theorem Ty.Short.afterCommaBools {rest : List (Token (Constant Ty))}
    (short : (Ty.boolList (.comma :: rest)).Short scope) : (Ty.boolList rest).Short scope := by
  obtain ⟨own, parts⟩ := Ty.short_iff.mp short
  exact Ty.short_iff.mpr ⟨own, parts⟩

/-- The remaining elements of a literal are a literal without long lists. -/
theorem Ty.Short.rest {head : Ty} {rest : List (Token Ty)}
    (short : (Ty.list (.element head :: rest)).Short scope) : (Ty.list rest).Short scope := by
  obtain ⟨own, parts⟩ := Ty.short_iff.mp short
  exact Ty.short_iff.mpr ⟨Nat.lt_of_succ_lt own, fun part member => parts part (List.mem_cons_of_mem _ member)⟩

theorem Ty.Short.restBools {head : Constant Ty} {rest : List (Token (Constant Ty))}
    (short : (Ty.boolList (.element head :: rest)).Short scope) : (Ty.boolList rest).Short scope := by
  obtain ⟨own, parts⟩ := Ty.short_iff.mp short
  exact Ty.short_iff.mpr ⟨Nat.lt_of_succ_lt own, fun part member => parts part (List.mem_append_right _ member)⟩

theorem Ty.Short.headBools {head : Constant Ty} {rest : List (Token (Constant Ty))}
    (short : (Ty.boolList (.element head :: rest)).Short scope) : head.Short scope :=
  fun _ member => short.part (List.mem_append_left _ member)

/-- A form that is no node has no long lists if its parts have none. -/
theorem Form.short_of_parts {limit : Nat} (positive : 1 ≤ limit) {form : Form}
    (types : form.listDepth .types = 1) (bools : form.listDepth .bools = 1)
    (parts : ∀ part ∈ form.parts, part.Short limit) : form.Short limit := by
  refine Form.short_iff.mpr ⟨?_, parts⟩
  rintro (_ | _)
  · exact types.trans_le positive
  · exact bools.trans_le positive

theorem Form.Short.part {limit : Nat} {whole part : Form} (short : whole.Short limit)
    (member : part ∈ whole.parts) : part.Short limit :=
  (Form.short_iff.mp short).2 part member

theorem Form.Short.output {limit : Nat} {form inner : Form} (short : form.Short limit)
    (gives : form.output? = some inner) : inner.Short limit := by
  unfold Form.output? at gives
  split at gives
  · cases gives
    exact short.part List.mem_cons_self
  · cases gives

theorem Form.Short.select {limit : Nat} {form inner : Form} (short : form.Short limit)
    (gives : form.select? = some inner) : inner.Short limit := by
  unfold Form.select? at gives
  split at gives
  · split at gives
    · exact (short.part (by simp [Form.parts])).output gives
    · cases gives
  · split at gives
    · exact (short.part (by simp [Form.parts])).output gives
    · cases gives
  · cases gives

theorem Form.short_lost {limit : Nat} (positive : 1 ≤ limit) : Form.lost.Short limit :=
  short_of_parts positive rfl rfl fun _ member => absurd member List.not_mem_nil

/-- What a projection gives has no long lists, if the results of the projection have none. -/
theorem Form.short_projected {limit : Nat} (positive : 1 ≤ limit) (bound : Nat) (trait : Trait)
    {result? : Option Form} {subject : Form} (short : ∀ inner, result? = some inner → inner.Short limit) :
    (subject.projected bound trait result?).value.Short limit := by
  show Form.Short limit (if subject.settled then result?.getD .lost else .lost)
  split
  · cases gives : result? with
    | none => exact short_lost positive
    | some inner => exact short inner gives
  · exact short_lost positive

mutual

/-- A type without long lists has a normal form without them. -/
theorem Ty.short_normalize (positive : 1 ≤ scope.limit) : ∀ type : Ty, type.Short scope →
    (type.normalize scope).value.Short scope.limit
  -- Only the nodes of literals make a list longer.
  | .atom _, _ => Form.short_of_parts positive rfl rfl
      fun _ member => absurd member List.not_mem_nil
  | .wrap _ inner, short => by
    have kept := inner.short_normalize positive (short.part List.mem_cons_self)
    exact Form.short_of_parts positive rfl rfl (List.forall_mem_singleton.mpr kept)
  | .combine _ left right, short => by
    have first := left.short_normalize positive (short.part List.mem_cons_self)
    have second := right.short_normalize positive (short.part (by simp [Ty.parts]))
    exact Form.short_of_parts positive rfl rfl
      (List.forall_mem_cons.mpr ⟨first, List.forall_mem_singleton.mpr second⟩)
  | .choice condition left right, short => by
    have first := condition.short_normalize positive (short.part List.mem_cons_self)
    have second := left.short_normalize positive (short.part (by simp [Ty.parts]))
    have third := right.short_normalize positive (short.part (by simp [Ty.parts]))
    exact Form.short_of_parts positive rfl rfl
      (List.forall_mem_cons.mpr ⟨first, List.forall_mem_cons.mpr ⟨second, List.forall_mem_singleton.mpr third⟩⟩)
  | .tuple members, short => by
    have kept := Ty.short_normalizeAll positive members fun type member => short.part member
    exact Form.short_of_parts positive rfl rfl kept
  | .function arguments result, short => by
    have first := Ty.short_normalizeAll positive arguments fun type member =>
      short.part (List.mem_append_left _ member)
    have second := result.short_normalize positive (short.part (by simp [Ty.parts]))
    refine Form.short_of_parts positive rfl rfl ?_
    exact List.forall_mem_append.mpr ⟨first, by simpa using second⟩
  | .bool _, _ => Form.short_of_parts positive rfl rfl
      fun _ member => absurd member List.not_mem_nil
  | .cons _ _, short => (short _ (.itself _)).elim
  | .boolCons _ _, short => (short _ (.itself _)).elim
  | .list tokens, short => (Ty.short_normalizeTokens positive tokens short).1
  | .boolList tokens, short => (Constant.short_normalizeTokens positive tokens short).1
  | .output subject, short => by
    have kept := subject.short_normalize positive (short.part List.mem_cons_self)
    exact Form.short_projected positive scope.limit .eval fun _ gives => kept.output gives
  | .select subject, short => by
    have kept := subject.short_normalize positive (short.part List.mem_cons_self)
    exact Form.short_projected positive scope.limit .select fun _ gives => kept.select gives
  | .named _, short => short _ (.itself _)

theorem Ty.short_normalizeAll (positive : 1 ≤ scope.limit) : ∀ types : List Ty,
    (∀ type ∈ types, type.Short scope) →
      ∀ form ∈ (Ty.normalizeAll scope types).value, form.Short scope.limit
  | [], _ => fun _ member => absurd member List.not_mem_nil
  | head :: rest, short => by
    have first := head.short_normalize positive (short head List.mem_cons_self)
    have others := Ty.short_normalizeAll positive rest fun type member =>
      short type (List.mem_cons_of_mem _ member)
    exact List.forall_mem_cons.mpr ⟨first, others⟩

/-- The chain of a literal has a node for each element, and so have its tails. -/
theorem Ty.short_normalizeTokens (positive : 1 ≤ scope.limit) : ∀ tokens : List (Token Ty),
    (Ty.list tokens).Short scope → (Ty.normalizeTokens scope tokens).value.Short scope.limit ∧
      ∀ kind, (Ty.normalizeTokens scope tokens).value.listDepth kind ≤
        (tokens.filterMap Token.value?).length + 1
  | [], _ => ⟨Form.short_of_parts positive rfl rfl
      fun _ member => absurd member List.not_mem_nil, by rintro (_ | _) <;> exact le_rfl⟩
  | .comma :: rest, short => Ty.short_normalizeTokens positive rest short.afterComma
  | .element head :: rest, short => by
    have first := head.short_normalize positive (short.part List.mem_cons_self)
    obtain ⟨others, depth⟩ := Ty.short_normalizeTokens positive rest short.rest
    have node : ∀ kind, (Ty.normalizeTokens scope (.element head :: rest)).value.listDepth kind ≤
        (rest.filterMap Token.value?).length + 2 := by
      rintro (_ | _)
      · exact Nat.succ_le_succ (depth .types)
      · exact Nat.succ_le_succ (Nat.zero_le _)
    have own : (rest.filterMap Token.value?).length + 1 < scope.limit := (Ty.short_iff.mp short).1
    have parts := List.forall_mem_cons.mpr ⟨first, List.forall_mem_singleton.mpr others⟩
    exact ⟨Form.short_iff.mpr ⟨fun kind => (node kind).trans own, parts⟩, node⟩

theorem Constant.short_normalizeTokens (positive : 1 ≤ scope.limit) : ∀ tokens : List (Token (Constant Ty)),
    (Ty.boolList tokens).Short scope → (Constant.normalizeTokens scope tokens).value.Short scope.limit ∧
      ∀ kind, (Constant.normalizeTokens scope tokens).value.listDepth kind ≤
        (tokens.filterMap Token.value?).length + 1
  | [], _ => ⟨Form.short_of_parts positive rfl rfl
      fun _ member => absurd member List.not_mem_nil, by rintro (_ | _) <;> exact le_rfl⟩
  | .comma :: rest, short => Constant.short_normalizeTokens positive rest short.afterCommaBools
  | .element head :: rest, short => by
    obtain ⟨others, depth⟩ := Constant.short_normalizeTokens positive rest short.restBools
    have node : ∀ kind, (Constant.normalizeTokens scope (.element head :: rest)).value.listDepth kind ≤
        (rest.filterMap Token.value?).length + 2 := by
      rintro (_ | _)
      · exact Nat.succ_le_succ (Nat.zero_le _)
      · exact Nat.succ_le_succ (depth .bools)
    have own : (rest.filterMap Token.value?).length + 1 < scope.limit := (Ty.short_iff.mp short).1
    exact ⟨Form.short_iff.mpr ⟨fun kind => (node kind).trans own, List.forall_mem_singleton.mpr others⟩, node⟩

end

/-- If the obligation is that a type is a list, there are no long lists in the type. -/
def Obligation.Short (scope : Scope) : Obligation → Prop
  | .implements (.list _) _ subject => subject.Short scope
  | _ => True

theorem Wrapper.short_obligations (wrapper : Wrapper) (inner : Ty) :
    ∀ obligation ∈ wrapper.obligations inner, obligation.Short scope := by
  unfold Wrapper.obligations
  split
  · simp [Obligation.Short]
  · split <;> simp [Obligation.Short]

theorem Mention.short_obligations (how : Mention) (subject : Ty) :
    ∀ obligation ∈ how.obligations subject, obligation.Short scope := by
  cases how <;> simp [Mention.obligations, Obligation.Short]

mutual

/-- Whatever a type without long lists owes to the rules of lists concerns types without long lists. -/
theorem Ty.short_obligations : ∀ type : Ty, type.Short scope →
    ∀ obligation ∈ type.obligations, obligation.Short scope
  -- Tails of literals are literals of fewer elements, and no node is written by itself.
  | .atom _, _ | .named _, _ => fun _ member => absurd member List.not_mem_nil
  | .wrap wrapper inner, short =>
    List.forall_mem_append.mpr ⟨inner.short_obligations (short.part List.mem_cons_self),
      wrapper.short_obligations inner⟩
  | .combine _ left right, short => by
    refine List.forall_mem_append.mpr ⟨left.short_obligations (short.part List.mem_cons_self),
      List.forall_mem_append.mpr ⟨right.short_obligations (short.part (by simp [Ty.parts])), ?_⟩⟩
    simp [Obligation.Short]
  | .choice condition left right, short => by
    refine List.forall_mem_append.mpr ⟨condition.short_obligations (short.part List.mem_cons_self),
      List.forall_mem_append.mpr ⟨left.short_obligations (short.part (by simp [Ty.parts])),
        List.forall_mem_append.mpr ⟨right.short_obligations (short.part (by simp [Ty.parts])), ?_⟩⟩⟩
    simp [Obligation.Short]
  | .tuple members, short => by
    refine List.forall_mem_append.mpr ⟨Ty.short_allObligations members fun _ member => short.part member, ?_⟩
    intro obligation member
    obtain ⟨type, _, rfl⟩ := List.mem_map.mp member
    trivial
  | .function arguments result, short =>
    List.forall_mem_append.mpr
      ⟨Ty.short_allObligations arguments fun _ member => short.part (List.mem_append_left _ member),
        result.short_obligations (short.part (by simp [Ty.parts]))⟩
  | .bool constant, short => by
    refine List.forall_mem_append.mpr ⟨constant.short_obligations fun _ member => short.part member, ?_⟩
    simp [Obligation.Short]
  | .cons _ _, short => (short _ (.itself _)).elim
  | .boolCons _ _, short => (short _ (.itself _)).elim
  | .list tokens, short => Ty.short_tokenObligations tokens short
  | .boolList tokens, short => Constant.short_tokenObligations tokens short
  | .output subject, short => by
    refine List.forall_mem_append.mpr ⟨subject.short_obligations (short.part List.mem_cons_self), ?_⟩
    simp [Obligation.Short]
  | .select subject, short => by
    refine List.forall_mem_append.mpr ⟨subject.short_obligations (short.part List.mem_cons_self), ?_⟩
    simp [Obligation.Short]

theorem Ty.short_allObligations : ∀ types : List Ty, (∀ type ∈ types, type.Short scope) →
    ∀ obligation ∈ Ty.allObligations types, obligation.Short scope
  | [], _ => fun _ member => absurd member List.not_mem_nil
  | head :: rest, short =>
    List.forall_mem_append.mpr ⟨head.short_obligations (short head List.mem_cons_self),
      Ty.short_allObligations rest fun type member => short type (List.mem_cons_of_mem _ member)⟩

theorem Ty.short_tokenObligations : ∀ tokens : List (Token Ty), (Ty.list tokens).Short scope →
    ∀ obligation ∈ Ty.tokenObligations tokens, obligation.Short scope
  | [], _ => fun _ member => absurd member List.not_mem_nil
  | .comma :: rest, short => Ty.short_tokenObligations rest short.afterComma
  | .element head :: rest, short =>
    List.forall_mem_append.mpr ⟨head.short_obligations (short.part List.mem_cons_self),
      List.forall_mem_append.mpr ⟨Ty.short_tokenObligations rest short.rest,
        List.forall_mem_singleton.mpr short.rest⟩⟩

theorem Constant.short_obligations : ∀ constant : Constant Ty, constant.Short scope →
    ∀ obligation ∈ constant.obligations, obligation.Short scope
  | .literal _, _ | .panic _, _ => fun _ member => absurd member List.not_mem_nil
  | .not operand, short => operand.short_obligations short
  | .connect _ left right, short => by
    obtain ⟨first, second⟩ := List.forall_mem_append.mp short
    exact List.forall_mem_append.mpr ⟨left.short_obligations first, right.short_obligations second⟩
  | .choose condition positive negative, short => by
    obtain ⟨others, third⟩ := List.forall_mem_append.mp short
    obtain ⟨first, second⟩ := List.forall_mem_append.mp others
    exact List.forall_mem_append.mpr ⟨condition.short_obligations first,
      List.forall_mem_append.mpr ⟨positive.short_obligations second, negative.short_obligations third⟩⟩
  | .compare _ kind left right, short => by
    obtain ⟨first, second⟩ := List.forall_mem_append.mp short
    refine List.forall_mem_append.mpr ⟨left.short_obligations first,
      List.forall_mem_append.mpr ⟨right.short_obligations second, ?_⟩⟩
    simp [Obligation.Short]
  | .mention how subject, short =>
    List.forall_mem_append.mpr ⟨subject.short_obligations (short subject List.mem_cons_self),
      how.short_obligations subject⟩

theorem Arith.short_obligations : ∀ number : Arith Ty, number.Short scope →
    ∀ obligation ∈ number.obligations, obligation.Short scope
  | .literal _ _, _ | .least, _ | .greatest, _ => fun _ member => absurd member List.not_mem_nil
  | .negate operand, short => operand.short_obligations short
  | .apply _ left right, short => by
    obtain ⟨first, second⟩ := List.forall_mem_append.mp short
    exact List.forall_mem_append.mpr ⟨left.short_obligations first, right.short_obligations second⟩
  | .length _ list, short => by
    have own := short list List.mem_cons_self
    exact List.forall_mem_append.mpr ⟨list.short_obligations own, List.forall_mem_singleton.mpr own⟩

theorem Constant.short_tokenObligations : ∀ tokens : List (Token (Constant Ty)),
    (Ty.boolList tokens).Short scope →
      ∀ obligation ∈ Constant.tokenObligations tokens, obligation.Short scope
  | [], _ => fun _ member => absurd member List.not_mem_nil
  | .comma :: rest, short => Constant.short_tokenObligations rest short.afterCommaBools
  | .element head :: rest, short =>
    List.forall_mem_append.mpr ⟨head.short_obligations short.headBools,
      List.forall_mem_cons.mpr ⟨trivial,
        List.forall_mem_append.mpr ⟨Constant.short_tokenObligations rest short.restBools,
          List.forall_mem_singleton.mpr short.restBools⟩⟩⟩

end

/-- The proof that a type without long lists is a list is never too deep. -/
theorem Ty.Short.not_tooDeep (positive : 1 ≤ scope.limit) {type : Ty} (short : type.Short scope)
    (kind : ListKind) : .tooDeep ∉ (type.normalize scope).value.unmet scope.limit (.list kind) := by
  intro deep
  have asked : (Trait.list kind).Asked := trivial
  obtain ⟨_, ⟨exceeds, _⟩ | ⟨_, _, same⟩⟩ := (Form.mem_unmet_iff asked).mp deep
  · have within := (type.short_normalize positive short) _ (.itself _) kind
    exact absurd exceeds (Nat.not_lt_of_le within)
  · cases same

end Short

namespace Program

variable {program : Program}

/-- The other type is a part of the type, or of an alias that the type uses. -/
inductive Involves (program : Program) : Ty → Ty → Prop where
  | itself {type part : Ty} (contains : type.Contains part) : Involves program type part
  | through {type body part : Ty} {name : String} (used : type.uses (.alias name) ≠ [])
    (found : program.aliases.lookup name = some body) (involves : Involves program body part) :
    Involves program type part

/-- All lists in the type are written as literals, and so they are in the aliases that it uses. -/
def Literally (program : Program) (type : Ty) : Prop :=
  ∀ part, program.Involves type part →
    (∀ head tail, part ≠ .cons head tail) ∧ ∀ constant tail, part ≠ .boolCons constant tail

/-- What belongs to something that belongs to a type belongs to the type. -/
theorem Involves.trans {type part inner : Ty} (involves : program.Involves type part)
    (further : program.Involves part inner) : program.Involves type inner := by
  induction involves with
  | itself contains =>
    cases further with
    | itself contains' => exact .itself (contains.trans contains')
    | through used found further => exact .through (contains.uses used) found further
  | through used found _ ih => exact .through used found (ih further)

theorem Literally.involves {type part : Ty} (literally : program.Literally type)
    (involves : program.Involves type part) : program.Literally part :=
  fun inner further => literally inner (involves.trans further)

theorem Literally.body {type body : Ty} {name : String} (literally : program.Literally type)
    (used : type.uses (.alias name) ≠ []) (found : program.aliases.lookup name = some body) :
    program.Literally body :=
  literally.involves (.through used found (.itself (.itself body)))

/-- A part of a type that expands does so as well. -/
theorem Expands.contains {type part : Ty} (expands : program.Expands type) (contains : type.Contains part) :
    program.Expands part := by
  obtain ⟨scope, plain, opens, made⟩ := expands
  obtain ⟨plainPart, made', _⟩ := contains.expand made
  exact ⟨scope, plainPart, opens, made'⟩

/-- The aliases of a program in order expand. -/
theorem Sound.expands_alias (sound : program.Sound) {name : String} {body : Ty}
    (found : program.aliases.lookup name = some body) : program.Expands body := by
  obtain ⟨front, back, split, _⟩ := List.lookup_eq_some_iff.mp found
  have member : (name, body) ∈ program.aliases := split ▸ List.mem_append_right _ List.mem_cons_self
  exact expands_type_iff.mpr ⟨sound.aliasesFit, sound.aliasesFit _ member⟩

theorem Involves.expands {type part : Ty} (involves : program.Involves type part) (sound : program.Sound)
    (expands : program.Expands type) : program.Expands part := by
  induction involves with
  | itself contains => exact expands.contains contains
  | through _ found _ ih => exact ih (sound.expands_alias found)

/-- Literals that expand are short, if this is known of the aliases that are used. -/
theorem Literally.short_of_names {type : Ty} (literally : program.Literally type)
    (expands : program.Expands type) (names : ∀ name, type.uses name ≠ [] →
      (program.scope.meaning name).value.Short program.limit) : type.Short program.scope := by
  intro part contains
  have plain := literally part (.itself contains)
  have fits := (expands_type_iff.mp (expands.contains contains)).2
  cases part with
  | cons head tail => exact absurd rfl (plain.1 head tail)
  | boolCons constant tail => exact absurd rfl (plain.2 constant tail)
  | list tokens =>
    have allowed := (Ty.fits_list_iff.mp fits).1.2
    show _ < program.limit
    omega
  | boolList tokens =>
    have allowed := (Ty.fits_boolList_iff.mp fits).1.2
    show _ < program.limit
    omega
  | named name => exact names name (contains.uses (by simp [Ty.uses]))
  | _ => trivial

/-- All lists are short in an alias that writes them as literals. -/
theorem Literally.short_alias (sound : program.Sound) (positive : 1 ≤ program.limit) {label : String}
    {body : Ty} (found : program.aliases.lookup label = some body) (literally : program.Literally body) :
    body.Short program.scope := by
  obtain ⟨rank, ranked⟩ := sound.acyclic.ranked
  -- Aliases are followed by their ranks, which become smaller.
  induction level : rank label using Nat.strong_induction_on generalizing label body with
  | h _ ih =>
    subst level
    refine literally.short_of_names (sound.expands_alias found) fun name used => ?_
    obtain ⟨other, inner, rfl, found'⟩ := sound.acyclic.defined label body found name used
    rw [sound.acyclic.meaning_eq found']
    have lower := ranked label body found other used
    exact inner.short_normalize positive (ih _ lower found' (literally.body used found') rfl)

/-- All lists are short in a type that writes them as literals and expands. -/
theorem Literally.short (sound : program.Sound) (positive : 1 ≤ program.limit) {type : Ty}
    (literally : program.Literally type) (expands : program.Expands type) : type.Short program.scope := by
  refine literally.short_of_names expands fun name used => ?_
  by_cases defined : ∃ label body, name = .alias label ∧ program.aliases.lookup label = some body
  · obtain ⟨label, body, rfl, found⟩ := defined
    rw [sound.acyclic.meaning_eq found]
    exact body.short_normalize positive (short_alias sound positive found (literally.body used found))
  · rw [meaning_of_undefined defined]
    exact Form.short_lost positive

/-- What such a type owes to the rules of lists is owed of short lists. -/
theorem Literally.short_owed (sound : program.Sound) (positive : 1 ≤ program.limit) {type : Ty}
    {obligation : Obligation} (literally : program.Literally type) (expands : program.Expands type)
    (owes : program.Owes type obligation) : obligation.Short program.scope := by
  induction owes with
  | itself member => exact Ty.short_obligations _ (literally.short sound positive expands) _ member
  | through used found _ ih => exact ih (literally.body used found) (sound.expands_alias found)

/-- A proof is owed within the type that something implements a trait of another kind, and it is too deep. -/
def Overreaches (program : Program) (type : Ty) : Prop :=
  ∃ trait asked subject, program.Owes type (.implements trait asked subject) ∧ (∀ kind, trait ≠ .list kind) ∧
    program.limit < (subject.normalize program.scope).value.proofDepth trait

/-- What is too deep in such a type is not the proof that a list is one. -/
theorem Literally.overreaches (sound : program.Sound) (positive : 1 ≤ program.limit) {type : Ty}
    (literally : program.Literally type) (expands : program.Expands type)
    (found : (type.normalize program.scope).Finds .tooDeep) : program.Overreaches type := by
  rcases sound.acyclic.owes_of_finds found with ⟨obligation, owes, wrong⟩ | ⟨same, _⟩
  · have short := literally.short_owed sound positive expands owes
    rcases Obligation.fault_cases wrong with same | ⟨_, trait, asked, subject, rfl⟩ | ⟨_, same⟩ | ⟨same, _⟩
    · cases same
    · obtain ⟨_, ⟨exceeds, _⟩ | ⟨_, _, same⟩⟩ := (Form.mem_unmet_iff asked).mp wrong
      · refine ⟨trait, asked, subject, owes, ?_, exceeds⟩
        rintro kind rfl
        exact short.not_tooDeep positive kind wrong
      · cases same
    · cases same
    · cases same
  · cases same

end Program

end TypeLists
