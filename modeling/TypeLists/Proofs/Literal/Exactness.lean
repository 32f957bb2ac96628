import TypeLists.Proofs.Expansion.Types

/-! Literals of types and of booleans read exactly the grammar of literals and expand to exactly the
chain of their elements. -/

namespace TypeLists

theorem Ty.expanders_eq (tokens : List (Token Ty)) :
    Ty.expanders tokens = tokens.map (Token.map Ty.expand) := by
  induction tokens with
  | nil => rfl
  | cons token rest ih =>
    cases token with
    | comma => rw [Ty.expanders, ih, List.map_cons, Token.map]
    | element head => rw [Ty.expanders, ih, List.map_cons, Token.map]

theorem Constant.expanders_eq (tokens : List (Token (Constant Ty))) :
    Constant.expanders tokens = tokens.map (Token.map Constant.expand) := by
  induction tokens with
  | nil => rfl
  | cons token rest ih =>
    cases token with
    | comma => rw [Constant.expanders, ih, List.map_cons, Token.map]
    | element head => rw [Constant.expanders, ih, List.map_cons, Token.map]

namespace Literal

variable {element : Type}

/-- A kind of literal expands to a chain with one node for each of its elements. -/
structure Builds (literal : List (Token element) → Ty) (expand : element → Nat → Expanding element)
    (node : element → Ty → Ty) (last : Ty) : Prop where
  /-- The elements are expanded on their own. -/
  regular : ∀ value, Expanding.Regular (expand value)
  /-- The chain is made of what the elements expand to. -/
  expand_eq : ∀ tokens depth, (literal tokens).expand depth = do
    let values ← elements (tokens.map (Token.map expand)) depth
    return values.foldr node last

theorem builds_list : Builds Ty.list Ty.expand .cons .nil where
  regular := Ty.regular_expand
  expand_eq tokens depth := by rw [Ty.expand, Ty.expanders_eq]

theorem builds_boolList : Builds Ty.boolList Constant.expand .boolCons .boolNil where
  regular := Constant.regular_expand
  expand_eq tokens depth := by rw [Ty.expand, Constant.expanders_eq]

variable {literal : List (Token element) → Ty} {expand : element → Nat → Expanding element}
  {node : element → Ty → Ty} {last : Ty}

/-- A literal expands exactly if it is written by the grammar, within the limit, and its elements expand. -/
theorem Builds.run_eq_ok_iff (builds : Builds literal expand node last)
    {tokens : List (Token element)} {limit depth : Nat} {plain : Ty} :
    Expanding.run limit ((literal tokens).expand depth) = .ok plain ↔
      ∃ written values, Writes tokens written ∧ depth + written.length + 1 ≤ limit ∧
        Makes limit (depth + 1) expand written values ∧ plain = values.foldr node last := by
  rw [builds.expand_eq, Expanding.run_bind_pure]
  constructor
  · intro expands
    cases made : Expanding.run limit (elements (tokens.map (Token.map expand)) depth) with
    | error error =>
      rw [made] at expands
      cases expands
    | ok values =>
      rw [made] at expands
      cases expands
      obtain ⟨written, writes, within, makes⟩ := (run_elements_eq_ok_iff builds.regular).mp made
      exact ⟨written, values, writes, within, makes, rfl⟩
  · intro parts
    obtain ⟨written, values, writes, within, makes, rfl⟩ := parts
    rw [(run_elements_eq_ok_iff builds.regular).mpr ⟨written, writes, within, makes⟩]
    rfl

/-- A literal outside of the grammar is refused for want of a rule, whatever its elements are. -/
theorem Builds.run_eq_noRule (builds : Builds literal expand node last)
    {tokens : List (Token element)} {limit depth : Nat} (reached : depth < limit)
    (unwritten : ¬ ∃ written, Writes tokens written) :
    Expanding.run limit ((literal tokens).expand depth) = .error .noRule := by
  have unread : ¬ ∃ actions, Writes (tokens.map (Token.map expand)) actions := by
    intro read
    obtain ⟨actions, image⟩ := read
    obtain ⟨written, writes, _⟩ := writes_map_iff.mp image
    exact unwritten ⟨written, writes⟩
  rw [builds.expand_eq, Expanding.run_bind_pure, run_elements_of_not_writes unread reached]
  rfl

/-- Elements without literals in them expand to themselves, wherever they stand. -/
theorem makes_self {written : List element} {limit depth : Nat}
    (plain : ∀ value ∈ written, ∀ level, expand value level = return value) :
    Makes limit depth expand written written := by
  unfold Makes
  induction written generalizing depth with
  | nil => exact .nil
  | cons head rest ih =>
    rw [List.zipIdx_cons]
    refine .cons ?_ (ih fun value member => plain value (by simp [member]))
    rw [plain head (by simp) depth]
    rfl

/-- A kind of literal accepts exactly its grammar, and expands to exactly the chain of its elements. -/
structure Exact (literal : List (Token element) → Ty) (expand : element → Nat → Expanding element)
    (node : element → Ty → Ty) (last : Ty) : Prop where
  /-- A literal cannot go on calling itself. -/
  terminates : WellFounded (@Calls element)
  /-- A bound on the number of steps plays no part if it exceeds the number of tokens. -/
  steps : ∀ {bound depth : Nat} {tokens : List (Token (Nat → Expanding element))},
    tokens.length < bound → unroll bound depth tokens = elements tokens depth
  /-- The grammar leaves out a leading comma and neighbours of one kind, and nothing else. -/
  grammar : ∀ {tokens : List (Token element)},
    (∃ written, Writes tokens written) ↔ tokens.head? ≠ some .comma ∧ Alternating tokens
  /-- What the tokens write is what they carry, each element once and in order. -/
  carried : ∀ {tokens : List (Token element)} {written : List element},
    Writes tokens written → tokens.filterMap Token.value? = written
  /-- A literal expands if it is in the grammar, its steps are allowed and its elements expand. -/
  accepts : ∀ {tokens : List (Token element)} {limit depth : Nat} {plain : Ty},
    Expanding.run limit ((literal tokens).expand depth) = .ok plain ↔
      ∃ written values, Writes tokens written ∧ depth + written.length + 1 ≤ limit ∧
        Makes limit (depth + 1) expand written values ∧ plain = values.foldr node last
  /-- Elements without literals in them stand in the chain as they are written. -/
  chain : ∀ {tokens : List (Token element)} {written : List element} {limit depth : Nat},
    (∀ value ∈ written, ∀ level, expand value level = return value) → Writes tokens written →
      depth + written.length + 1 ≤ limit →
      Expanding.run limit ((literal tokens).expand depth) = .ok (written.foldr node last)
  /-- A comma behind the last element changes nothing. -/
  layout : ∀ {written : List element}, written ≠ [] →
    (literal (separated written ++ [.comma])).expand = (literal (separated written)).expand
  /-- Everything outside of the grammar is refused for want of a rule. -/
  rejects : ∀ {tokens : List (Token element)} {limit depth : Nat}, depth < limit →
    (¬ ∃ written, Writes tokens written) →
      Expanding.run limit ((literal tokens).expand depth) = .error .noRule

theorem Builds.exact (builds : Builds literal expand node last) :
    Exact literal expand node last where
  terminates := wellFounded_calls
  steps enough := unroll_eq enough (Nat.lt_succ_self _)
  grammar := exists_writes_iff
  carried writes := writes.filterMap
  accepts := builds.run_eq_ok_iff
  chain plain writes within :=
    builds.run_eq_ok_iff.mpr ⟨_, _, writes, within, makes_self plain, rfl⟩
  layout {written} some := by
    have spelled : Writes (separated written ++ [.comma]) written :=
      .inr ⟨some, by rw [separated_eq]⟩
    funext depth
    -- Both spellings write the same elements, and these decide on the steps.
    rw [builds.expand_eq, builds.expand_eq,
      elements_eq_of_writes (writes_map_iff.mpr ⟨written, spelled, rfl⟩),
      elements_eq_of_writes (writes_map_iff.mpr ⟨written, writes_separated written, rfl⟩)]
  rejects := builds.run_eq_noRule

/-- Both kinds of literal accept exactly their grammar and expand to exactly their chain. -/
theorem literals_exact :
    Exact Ty.list Ty.expand .cons .nil ∧ Exact Ty.boolList Constant.expand .boolCons .boolNil :=
  ⟨builds_list.exact, builds_boolList.exact⟩

/-- A comma may stand behind the last element. -/
example :
    Expanding.run 4 ((Ty.boolList [.element (.literal true), .comma]).expand 2) =
      .ok (.boolCons (.literal true) .boolNil) := rfl

end Literal

end TypeLists
