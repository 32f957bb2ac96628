import Mathlib.Data.List.Chain
import TypeLists.Literal

/-! The grammar of literals: the two rules accept exactly the sequences in which single commas stand
between the elements and at most one more behind the last, and each step leaves fewer tokens. -/

namespace TypeLists

namespace Token

variable {element other : Type}

/-- The token is a comma. -/
def isComma : Token element → Bool
  | .comma => true
  | .element _ => false

/-- The element that the token carries, if it carries one. -/
def value? : Token element → Option element
  | .comma => none
  | .element value => some value

/-- The token with its element replaced, if it carries one. -/
def map (change : element → other) : Token element → Token other
  | .comma => .comma
  | .element value => .element (change value)

end Token

namespace Literal

variable {element other : Type}

/-- The tokens write the elements: single commas stand between them, and one more may end them. -/
def Writes (tokens : List (Token element)) (elements : List element) : Prop :=
  tokens = (elements.map .element).intersperse .comma ∨
    elements ≠ [] ∧ tokens = (elements.map .element).intersperse .comma ++ [.comma]

/-- The tokens that stand behind the first element of a literal, except for a last comma. -/
def listed (others : List element) : List (Token element) :=
  others.flatMap fun value => [.comma, .element value]

@[simp] theorem listed_nil : listed ([] : List element) = [] := rfl

@[simp] theorem listed_cons (head : element) (others : List element) :
    listed (head :: others) = .comma :: .element head :: listed others := rfl

/-- A first element is followed by the others, each behind a comma. -/
theorem intersperse_cons (head : element) (others : List element) :
    ((head :: others).map Token.element).intersperse .comma = .element head :: listed others := by
  induction others generalizing head with
  | nil => rfl
  | cons next rest ih =>
    have tail := ih next
    simp only [List.map_cons, listed_cons] at tail ⊢
    rw [List.intersperse_cons_cons, tail]

/-- The layout in which elements are handed on is the one without a last comma. -/
theorem separated_eq (elements : List element) :
    separated elements = (elements.map Token.element).intersperse .comma := by
  induction elements with
  | nil => rfl
  | cons head rest ih =>
    cases rest with
    | nil => rfl
    | cons next rest => simpa [separated] using ih

theorem separated_cons (head : element) (others : List element) :
    separated (head :: others) = .element head :: listed others := by
  rw [separated_eq, intersperse_cons]

theorem writes_separated (elements : List element) : Writes (separated elements) elements :=
  .inl (separated_eq elements)

/-- Nothing is written by no tokens, and by no others. -/
@[simp] theorem writes_nil_iff {tokens : List (Token element)} : Writes tokens [] ↔ tokens = [] := by
  simp [Writes]

/-- What stands behind a first element is a list of the others, and at most one more comma. -/
theorem writes_cons_iff {tokens : List (Token element)} {head : element} {others : List element} :
    Writes tokens (head :: others) ↔
      tokens = .element head :: listed others ∨
        tokens = .element head :: (listed others ++ [.comma]) := by
  rw [Writes, intersperse_cons]
  simp

/-- Reading what stands behind a first element succeeds exactly on lists of elements. -/
theorem following?_eq_some_iff {tokens : List (Token element)} {others : List element} :
    following? tokens = some others ↔
      tokens = listed others ∨ tokens = listed others ++ [.comma] := by
  fun_induction following? tokens generalizing others with
  | case1 => cases others <;> simp
  | case2 => cases others <;> simp
  | case3 head rest ih =>
    -- One element and the comma in front of it are read at a time.
    cases others with
    | nil => simp
    | cons next others =>
      simp only [Option.map_eq_some_iff, ih, listed_cons, List.cons_append, List.cons.injEq,
        true_and, Token.element.injEq]
      constructor
      · intro parts
        obtain ⟨_, read, rfl, rfl⟩ := parts
        exact read.imp (⟨rfl, ·⟩) (⟨rfl, ·⟩)
      · intro layouts
        rcases layouts with ⟨rfl, read⟩ | ⟨rfl, read⟩
        · exact ⟨others, .inl read, rfl, rfl⟩
        · exact ⟨others, .inr read, rfl, rfl⟩
  | case4 tokens other last pair =>
    cases others with
    | nil => simp_all
    | cons next others =>
      simp only [reduceCtorEq, false_iff, not_or]
      exact ⟨pair _ _, pair _ _⟩

/-- The rule for the empty literal accepts it and nothing else. -/
theorem step?_eq_finish_iff {tokens : List (Token element)} :
    step? tokens = some .finish ↔ tokens = [] := by
  rcases tokens with _ | ⟨_ | head, rest⟩ <;> simp [step?]

/-- The other rule gives the first of the written elements, and the others in the plain layout. -/
theorem step?_eq_emit_iff {tokens rest : List (Token element)} {head : element} :
    step? tokens = some (.emit head rest) ↔
      ∃ others, Writes tokens (head :: others) ∧ rest = separated others := by
  rcases tokens with _ | ⟨_ | first, behind⟩
  · simp [step?, writes_cons_iff]
  · simp [step?, writes_cons_iff]
  · simp only [step?, Option.map_eq_some_iff, Step.emit.injEq, following?_eq_some_iff,
      writes_cons_iff, List.cons.injEq, Token.element.injEq]
    constructor
    · intro parts
      obtain ⟨others, read, rfl, rfl⟩ := parts
      exact ⟨others, read.imp (⟨rfl, ·⟩) (⟨rfl, ·⟩), rfl⟩
    · intro parts
      obtain ⟨others, layouts, rfl⟩ := parts
      rcases layouts with ⟨rfl, read⟩ | ⟨rfl, read⟩
      · exact ⟨others, .inl read, rfl, rfl⟩
      · exact ⟨others, .inr read, rfl, rfl⟩

/-- No rule accepts the tokens exactly if they write no elements. -/
theorem step?_eq_none_iff {tokens : List (Token element)} :
    step? tokens = none ↔ ¬ ∃ elements, Writes tokens elements := by
  constructor
  · intro rejected some
    obtain ⟨elements, written⟩ := some
    cases elements with
    | nil =>
      rw [step?_eq_finish_iff.mpr (writes_nil_iff.mp written)] at rejected
      cases rejected
    | cons head others =>
      rw [step?_eq_emit_iff.mpr ⟨others, written, rfl⟩] at rejected
      cases rejected
  · intro unwritten
    cases made : step? tokens with
    | none => rfl
    | some next =>
      exfalso
      cases next with
      | finish => exact unwritten ⟨[], writes_nil_iff.mpr (step?_eq_finish_iff.mp made)⟩
      | emit head rest =>
        obtain ⟨others, written, _⟩ := step?_eq_emit_iff.mp made
        exact unwritten ⟨head :: others, written⟩

@[simp] theorem filterMap_listed (others : List element) :
    (listed others).filterMap Token.value? = others := by
  induction others with
  | nil => rfl
  | cons head rest ih => simp [List.filterMap_cons, Token.value?, ih]

/-- The written elements are those that the tokens carry, in the same order. -/
theorem Writes.filterMap {tokens : List (Token element)} {elements : List element}
    (written : Writes tokens elements) : tokens.filterMap Token.value? = elements := by
  cases elements with
  | nil => simp [writes_nil_iff.mp written]
  | cons head others =>
    -- Commas carry nothing, wherever they stand.
    rcases writes_cons_iff.mp written with rfl | rfl <;> simp [Token.value?]

/-- A literal calls itself with these tokens after a step on the others. -/
def Calls (rest tokens : List (Token element)) : Prop :=
  ∃ head, step? tokens = some (.emit head rest)

/-- A literal hands on fewer tokens than it was given. -/
theorem Calls.length_lt {rest tokens : List (Token element)} (called : Calls rest tokens) :
    rest.length < tokens.length := by
  obtain ⟨head, made⟩ := called
  obtain ⟨others, written, rfl⟩ := step?_eq_emit_iff.mp made
  -- The comma behind the first element is not handed on.
  have shorter : (separated others).length ≤ (listed others).length := by
    cases others with
    | nil => simp [separated]
    | cons next rest => simp [separated_cons]
  rcases writes_cons_iff.mp written with rfl | rfl <;> simp <;> omega

/-- No literal goes on calling itself. -/
theorem wellFounded_calls : WellFounded (@Calls element) :=
  Subrelation.wf Calls.length_lt (measure List.length).wf

/-- An element is written exactly if a token carries it. -/
theorem Writes.mem_iff {tokens : List (Token element)} {elements : List element}
    (written : Writes tokens elements) {value : element} :
    value ∈ elements ↔ .element value ∈ tokens := by
  rw [← written.filterMap, List.mem_filterMap]
  constructor
  · intro carried
    obtain ⟨token, member, carried⟩ := carried
    cases token with
    | comma => cases carried
    | element other =>
      cases carried
      exact member
  · intro member
    exact ⟨_, member, rfl⟩

/-- Neighbouring tokens are of different kinds. -/
def Alternating (tokens : List (Token element)) : Prop :=
  tokens.IsChain fun left right => left.isComma ≠ right.isComma

/-- What stands behind an element can be read exactly if the kinds alternate from the element on. -/
theorem following?_ne_none_iff {tokens : List (Token element)} {first : element} :
    following? tokens ≠ none ↔ Alternating (.element first :: tokens) := by
  unfold Alternating
  fun_induction following? tokens generalizing first with
  | case1 => simp
  | case2 => simp [Token.isComma]
  | case3 head rest ih =>
    rw [Ne, Option.map_eq_none_iff, ← Ne, @ih head]
    simp [Token.isComma]
  | case4 tokens other last pair =>
    -- Either an element stands next to an element, or a comma next to a comma.
    rcases tokens with _ | ⟨_ | head, _ | ⟨_ | next, rest⟩⟩ <;> simp_all [Token.isComma]

/-- Tokens write some elements exactly if no comma leads them and their kinds alternate. -/
theorem exists_writes_iff {tokens : List (Token element)} :
    (∃ elements, Writes tokens elements) ↔
      tokens.head? ≠ some .comma ∧ Alternating tokens := by
  rw [← not_iff_not, ← step?_eq_none_iff]
  rcases tokens with _ | ⟨_ | head, rest⟩
  · simp [step?, Alternating]
  · simp [step?]
  · rw [← following?_ne_none_iff]
    simp [step?]

/-- Replacing the elements of some tokens replaces the elements that they write. -/
theorem writes_map_iff {change : element → other} {tokens : List (Token element)}
    {images : List other} :
    Writes (tokens.map (Token.map change)) images ↔
      ∃ elements, Writes tokens elements ∧ images = elements.map change := by
  have forward {elements : List element} (written : Writes tokens elements) :
      Writes (tokens.map (Token.map change)) (elements.map change) := by
    cases elements with
    | nil => simp [writes_nil_iff.mp written]
    | cons head others =>
      have list : (listed others).map (Token.map change) = listed (others.map change) := by
        simp [listed, List.map_flatMap, List.flatMap_map, Token.map]
      rw [List.map_cons, writes_cons_iff, ← list]
      rcases writes_cons_iff.mp written with rfl | rfl <;> simp [Token.map]
  constructor
  · intro written
    -- The tokens alternate as their images do, so that they write some elements as well.
    have kinds (token : Token element) : (token.map change).isComma = token.isComma := by
      cases token <;> rfl
    have leading : tokens.head? ≠ some .comma := by
      have image := (exists_writes_iff.mp ⟨images, written⟩).1
      rcases tokens with _ | ⟨_ | head, rest⟩ <;> simp_all [Token.map]
    have alternating : Alternating tokens := by
      have image := (exists_writes_iff.mp ⟨images, written⟩).2
      simpa [Alternating, List.isChain_map, kinds] using image
    obtain ⟨elements, written'⟩ := exists_writes_iff.mpr ⟨leading, alternating⟩
    exact ⟨elements, written', written.filterMap.symm.trans (forward written').filterMap⟩
  · intro parts
    obtain ⟨elements, written, rfl⟩ := parts
    exact forward written

end Literal

end TypeLists
