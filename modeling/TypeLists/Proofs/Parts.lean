import TypeLists.Proofs.Literal.Exactness
import TypeLists.Proofs.Normalization

/-! The parts of types: whatever stands in a type that expands, or in which nothing is found, expands as
well, and nothing is found in it either. -/

namespace TypeLists

/-- The lists that an integer expression measures. -/
def Arith.lists {type : Type} : Arith type → List type
  -- Numbers measure nothing.
  | .literal _ _ | .least | .greatest => []
  | .negate operand => operand.lists
  | .apply _ left right => left.lists ++ right.lists
  | .length _ list => [list]

/-- The types that a constant names, in mentions and in lengths. -/
def Constant.types {type : Type} : Constant type → List type
  | .literal _ | .panic _ => []
  | .not operand => operand.types
  | .connect _ left right => left.types ++ right.types
  | .choose condition positive negative => condition.types ++ positive.types ++ negative.types
  | .compare _ _ left right => left.lists ++ right.lists
  | .mention _ subject => [subject]

namespace Ty

/-- The types that stand immediately in a type, among them those that its constants name. -/
def parts : Ty → List Ty
  -- What a name stands for is no part of the type that uses the name.
  | .atom _ | .named _ => []
  | .wrap _ inner => [inner]
  | .cons head tail => [head, tail]
  | .combine _ left right => [left, right]
  | .choice condition positive negative => [condition, positive, negative]
  | .tuple members => members
  | .function arguments result => arguments ++ [result]
  | .bool constant => constant.types
  | .boolCons constant tail => constant.types ++ [tail]
  | .list tokens => tokens.filterMap Token.value?
  | .boolList tokens => (tokens.filterMap Token.value?).flatMap Constant.types
  | .output subject => [subject]
  | .select subject => [subject]

/-- A type contains itself and all that its parts contain. -/
inductive Contains : Ty → Ty → Prop where
  | itself (type : Ty) : Contains type type
  | within {whole part inner : Ty} (member : part ∈ whole.parts) (contains : Contains part inner) :
    Contains whole inner

theorem Contains.trans {whole part inner : Ty} (contains : whole.Contains part)
    (contains' : part.Contains inner) : whole.Contains inner := by
  -- The induction follows the way from the whole to the part.
  induction contains with
  | itself type => exact contains'
  | within member _ ih => exact .within member (ih contains')

end Ty

namespace Form

/-- The forms that stand immediately in a form. -/
def parts : Form → List Form
  | .atom _ | .bool _ | .hole _ => []
  | .wrap _ inner => [inner]
  | .cons head tail => [head, tail]
  | .combine _ left right => [left, right]
  | .choice condition positive negative => [condition, positive, negative]
  | .tuple members => members
  | .function arguments result => arguments ++ [result]
  | .boolCons _ tail => [tail]

/-- A form contains itself and all that its parts contain. -/
inductive Contains : Form → Form → Prop where
  | itself (form : Form) : Contains form form
  | within {whole part inner : Form} (member : part ∈ whole.parts) (contains : Contains part inner) :
    Contains whole inner

/-- The parts of a well-formed form are well-formed. -/
theorem WellFormed.part {allowed : Hole → Prop} {limit : Nat} {whole part : Form}
    (wellFormed : whole.WellFormed allowed limit) (member : part ∈ whole.parts) :
    part.WellFormed allowed limit := by
  -- The holes and the broken rules of the parts are among those of the form.
  cases whole with
  | atom leaf => cases member
  | bool value => cases member
  | hole cause => cases member
  | wrap wrapper inner =>
    cases List.mem_singleton.mp member
    exact (wellFormed_wrap_iff.mp wellFormed).1
  | cons head tail =>
    obtain ⟨first, second, _⟩ := wellFormed_cons_iff.mp wellFormed
    simp only [parts, List.mem_cons, List.not_mem_nil, or_false] at member
    rcases member with rfl | rfl
    · exact first
    · exact second
  | combine combinator left right =>
    obtain ⟨first, second, _⟩ := wellFormed_combine_iff.mp wellFormed
    simp only [parts, List.mem_cons, List.not_mem_nil, or_false] at member
    rcases member with rfl | rfl
    · exact first
    · exact second
  | choice condition positive negative =>
    obtain ⟨first, second, third, _⟩ := wellFormed_choice_iff.mp wellFormed
    simp only [parts, List.mem_cons, List.not_mem_nil, or_false] at member
    rcases member with rfl | rfl | rfl
    · exact first
    · exact second
    · exact third
  | tuple members => exact (wellFormed_tuple_iff.mp wellFormed).1 part member
  | function arguments result =>
    obtain ⟨first, last⟩ := wellFormed_function_iff.mp wellFormed
    simp only [parts, List.mem_append, List.mem_singleton] at member
    rcases member with member | rfl
    · exact first part member
    · exact last
  | boolCons value tail =>
    -- The value may be missing here, in which case its hole is among those of the node.
    obtain ⟨holes, rules⟩ := wellFormed
    simp only [malformations, List.append_eq_nil_iff] at rules
    cases List.mem_singleton.mp member
    exact ⟨fun hole inside => holes hole (by simp [Form.holes, inside]), rules.1⟩

/-- Everything in a well-formed form is well-formed. -/
theorem WellFormed.contains {allowed : Hole → Prop} {limit : Nat} {whole part : Form}
    (wellFormed : whole.WellFormed allowed limit) (contains : whole.Contains part) :
    part.WellFormed allowed limit := by
  induction contains with
  | itself form => exact wellFormed
  | within member _ ih => exact ih (wellFormed.part member)

end Form

section Clean

variable {scope : Scope}

/-- Nothing is found in the lists that an integer expression without findings measures. -/
theorem Arith.clean_of_mem {number : Arith Ty} {resolved : Arith Form} {type : Ty}
    (clean : number.normalize scope = .clean resolved) (member : type ∈ number.lists) :
    ∃ form, type.normalize scope = .clean form := by
  -- Both operands are normalized, whatever is found in the first of them.
  induction number generalizing resolved with
  | literal minus magnitude => cases member
  | least => cases member
  | greatest => cases member
  | negate operand ih =>
    simp only [Arith.normalize, Checked.bind_eq_clean_iff] at clean
    obtain ⟨operand', operandClean, _⟩ := clean
    exact ih operandClean member
  | apply operation left right ihLeft ihRight =>
    simp only [Arith.normalize, Checked.bind_eq_clean_iff] at clean
    obtain ⟨left', leftClean, right', rightClean, _⟩ := clean
    rcases List.mem_append.mp member with member | member
    · exact ihLeft leftClean member
    · exact ihRight rightClean member
  | length kind list =>
    simp only [Arith.normalize, Checked.bind_eq_clean_iff] at clean
    obtain ⟨list', listClean, _⟩ := clean
    cases List.mem_singleton.mp member
    exact ⟨list', listClean⟩

/-- Nothing is found in the types that a constant without findings names. -/
theorem Constant.clean_of_mem {constant : Constant Ty} {resolved : Constant Form} {type : Ty}
    (clean : constant.normalize scope = .clean resolved) (member : type ∈ constant.types) :
    ∃ form, type.normalize scope = .clean form := by
  -- All operands are normalized, also one that control flow never reaches.
  induction constant generalizing resolved with
  | literal value => cases member
  | panic index => cases member
  | not operand ih =>
    simp only [Constant.normalize, Checked.bind_eq_clean_iff] at clean
    obtain ⟨operand', operandClean, _⟩ := clean
    exact ih operandClean member
  | connect connective left right ihLeft ihRight =>
    simp only [Constant.normalize, Checked.bind_eq_clean_iff] at clean
    obtain ⟨left', leftClean, right', rightClean, _⟩ := clean
    rcases List.mem_append.mp member with member | member
    · exact ihLeft leftClean member
    · exact ihRight rightClean member
  | choose condition positive negative ihCondition ihPositive ihNegative =>
    simp only [Constant.normalize, Checked.bind_eq_clean_iff] at clean
    obtain ⟨condition', conditionClean, positive', positiveClean, negative', negativeClean, _⟩ :=
      clean
    simp only [types, List.mem_append] at member
    rcases member with (member | member) | member
    · exact ihCondition conditionClean member
    · exact ihPositive positiveClean member
    · exact ihNegative negativeClean member
  | compare comparison kind left right =>
    simp only [Constant.normalize, Checked.bind_eq_clean_iff] at clean
    obtain ⟨left', leftClean, right', rightClean, _⟩ := clean
    rcases List.mem_append.mp member with member | member
    · exact Arith.clean_of_mem leftClean member
    · exact Arith.clean_of_mem rightClean member
  | mention how subject =>
    simp only [Constant.normalize, Checked.bind_eq_clean_iff] at clean
    obtain ⟨subject', subjectClean, _⟩ := clean
    cases List.mem_singleton.mp member
    exact ⟨subject', subjectClean⟩

/-- Nothing is found in the members of a list of types without findings. -/
theorem Ty.clean_of_mem_all {types : List Ty} {forms : List Form}
    (clean : Ty.normalizeAll scope types = .clean forms) {type : Ty} (member : type ∈ types) :
    ∃ form, type.normalize scope = .clean form := by
  -- The members are normalized one after another.
  induction types generalizing forms with
  | nil => cases member
  | cons head rest ih =>
    simp only [Ty.normalizeAll, Checked.bind_eq_clean_iff] at clean
    obtain ⟨head', headClean, rest', restClean, _⟩ := clean
    rcases List.mem_cons.mp member with rfl | member
    · exact ⟨head', headClean⟩
    · exact ih restClean member

/-- Nothing is found in the elements of a type list without findings. -/
theorem Ty.clean_of_mem_tokens {tokens : List (Token Ty)} {form : Form}
    (clean : Ty.normalizeTokens scope tokens = .clean form) {type : Ty}
    (member : type ∈ tokens.filterMap Token.value?) :
    ∃ form, type.normalize scope = .clean form := by
  -- Commas are passed over, and every element is normalized.
  induction tokens generalizing form with
  | nil => cases member
  | cons token rest ih =>
    cases token with
    | comma => exact ih (by simpa only [Ty.normalizeTokens] using clean) member
    | element head =>
      simp only [Ty.normalizeTokens, Checked.bind_eq_clean_iff] at clean
      obtain ⟨head', headClean, tail, tailClean, _⟩ := clean
      rcases List.mem_cons.mp member with rfl | member
      · exact ⟨head', headClean⟩
      · exact ih tailClean member

/-- Nothing is found in the types that the elements of a boolean list without findings name. -/
theorem Constant.clean_of_mem_tokens {tokens : List (Token (Constant Ty))} {form : Form}
    (clean : Constant.normalizeTokens scope tokens = .clean form) {type : Ty}
    (member : type ∈ (tokens.filterMap Token.value?).flatMap Constant.types) :
    ∃ form, type.normalize scope = .clean form := by
  -- An element that is evaluated was normalized without a finding before.
  induction tokens generalizing form with
  | nil => cases member
  | cons token rest ih =>
    cases token with
    | comma => exact ih (by simpa only [Constant.normalizeTokens] using clean) member
    | element head =>
      simp only [Constant.normalizeTokens, Checked.bind_eq_clean_iff,
        Constant.settle_eq_clean_iff] at clean
      obtain ⟨_, ⟨_, _, headClean, _⟩, tail, tailClean, _⟩ := clean
      rcases List.mem_append.mp member with member | member
      · exact Constant.clean_of_mem headClean member
      · exact ih tailClean member

/-- Nothing is found in the parts of a type without findings. -/
theorem Ty.clean_of_mem {whole part : Ty} {form : Form}
    (clean : whole.normalize scope = .clean form) (member : part ∈ whole.parts) :
    ∃ form, part.normalize scope = .clean form := by
  -- What is found in a part is found in the whole, whatever the former does with the part.
  cases whole with
  | atom leaf => cases member
  | named name => cases member
  | wrap wrapper inner =>
    simp only [Ty.normalize, Checked.bind_eq_clean_iff] at clean
    obtain ⟨inner', innerClean, _⟩ := clean
    cases List.mem_singleton.mp member
    exact ⟨inner', innerClean⟩
  | cons head tail =>
    simp only [Ty.normalize, Checked.bind_eq_clean_iff] at clean
    obtain ⟨head', headClean, tail', tailClean, _⟩ := clean
    simp only [parts, List.mem_cons, List.not_mem_nil, or_false] at member
    rcases member with rfl | rfl
    · exact ⟨head', headClean⟩
    · exact ⟨tail', tailClean⟩
  | combine combinator left right =>
    simp only [Ty.normalize, Checked.bind_eq_clean_iff] at clean
    obtain ⟨left', leftClean, right', rightClean, _⟩ := clean
    simp only [parts, List.mem_cons, List.not_mem_nil, or_false] at member
    rcases member with rfl | rfl
    · exact ⟨left', leftClean⟩
    · exact ⟨right', rightClean⟩
  | choice condition positive negative =>
    simp only [Ty.normalize, Checked.bind_eq_clean_iff] at clean
    obtain ⟨condition', conditionClean, positive', positiveClean, negative', negativeClean, _⟩ :=
      clean
    simp only [parts, List.mem_cons, List.not_mem_nil, or_false] at member
    rcases member with rfl | rfl | rfl
    · exact ⟨condition', conditionClean⟩
    · exact ⟨positive', positiveClean⟩
    · exact ⟨negative', negativeClean⟩
  | tuple members =>
    simp only [Ty.normalize, Checked.bind_eq_clean_iff] at clean
    obtain ⟨members', membersClean, _⟩ := clean
    exact Ty.clean_of_mem_all membersClean member
  | function arguments result =>
    simp only [Ty.normalize, Checked.bind_eq_clean_iff] at clean
    obtain ⟨arguments', argumentsClean, result', resultClean, _⟩ := clean
    simp only [parts, List.mem_append, List.mem_singleton] at member
    rcases member with member | rfl
    · exact Ty.clean_of_mem_all argumentsClean member
    · exact ⟨result', resultClean⟩
  | bool constant =>
    simp only [Ty.normalize, Checked.bind_eq_clean_iff, Constant.settle_eq_clean_iff] at clean
    obtain ⟨_, ⟨_, _, constantClean, _⟩, _⟩ := clean
    exact Constant.clean_of_mem constantClean member
  | boolCons constant tail =>
    simp only [Ty.normalize, Checked.bind_eq_clean_iff, Constant.settle_eq_clean_iff] at clean
    obtain ⟨_, ⟨_, _, constantClean, _⟩, tail', tailClean, _⟩ := clean
    simp only [parts, List.mem_append, List.mem_singleton] at member
    rcases member with member | rfl
    · exact Constant.clean_of_mem constantClean member
    · exact ⟨tail', tailClean⟩
  | list tokens => exact Ty.clean_of_mem_tokens (by simpa only [Ty.normalize] using clean) member
  | boolList tokens =>
    exact Constant.clean_of_mem_tokens (by simpa only [Ty.normalize] using clean) member
  | output subject =>
    simp only [Ty.normalize, Checked.bind_eq_clean_iff] at clean
    obtain ⟨subject', subjectClean, _⟩ := clean
    cases List.mem_singleton.mp member
    exact ⟨subject', subjectClean⟩
  | select subject =>
    simp only [Ty.normalize, Checked.bind_eq_clean_iff] at clean
    obtain ⟨subject', subjectClean, _⟩ := clean
    cases List.mem_singleton.mp member
    exact ⟨subject', subjectClean⟩

/-- Nothing is found anywhere in a type without findings. -/
theorem Ty.Contains.clean {whole part : Ty} (contains : whole.Contains part) {form : Form}
    (clean : whole.normalize scope = .clean form) : ∃ form, part.normalize scope = .clean form := by
  induction contains generalizing form with
  | itself type => exact ⟨form, clean⟩
  | within member _ ih =>
    obtain ⟨form', partClean⟩ := Ty.clean_of_mem clean member
    exact ih partClean

end Clean

end TypeLists
