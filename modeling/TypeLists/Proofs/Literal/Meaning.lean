import TypeLists.Proofs.Expansion.Parts
import TypeLists.Proofs.Form.Chain
import TypeLists.Proofs.Query

/-! What literals stand for: the normal form of a literal is the chain of what its elements stand for,
and different elements give different chains. -/

namespace TypeLists

section Forall₂

variable {first second third : Type}

/-- A list has an image under a relation exactly if all its members have one. -/
theorem exists_forall₂_iff {relation : first → second → Prop} {members : List first} :
    (∃ images, List.Forall₂ relation members images) ↔
      ∀ member ∈ members, ∃ image, relation member image := by
  -- An image of the list is an image of its head and one of the rest.
  induction members with
  | nil => simp
  | cons head rest ih =>
    simp only [List.forall₂_cons_left_iff, List.forall_mem_cons, ← ih]
    grind

/-- Lists have the same image under a function-like relation exactly if their members have. -/
theorem images_eq_iff {relation : first → third → Prop}
    (unique : ∀ {member image image'}, relation member image → relation member image' →
      image = image')
    {members members' : List first} {images images' : List third}
    (all : List.Forall₂ relation members images) (all' : List.Forall₂ relation members' images') :
    images = images' ↔
      List.Forall₂ (fun member member' => ∃ image, relation member image ∧ relation member' image)
        members members' := by
  -- The lists are taken apart together, and one that ends earlier decides.
  induction all generalizing members' images' with
  | nil =>
    cases all' with
    | nil => simp
    | cons _ _ => simp
  | @cons member image _ _ related _ ih =>
    cases all' with
    | nil => simp
    | @cons member' image' _ _ related' rest' =>
      have heads : image = image' ↔ ∃ other, relation member other ∧ relation member' other := by
        constructor
        · intro same
          exact ⟨image, related, same ▸ related'⟩
        · intro both
          obtain ⟨other, here, there⟩ := both
          exact (unique related here).trans (unique there related')
      rw [List.cons.injEq, List.forall₂_cons, ih rest', heads]

end Forall₂

/-- What an element of a literal stands for in a program, given how it expands and what it reads as. -/
def Program.Stands {element value : Type} (program : Program)
    (expand : element → Nat → Expanding element) (reads : Scope → element → value → Prop)
    (written : element) (meaning : value) : Prop :=
  ∃ scope plain, program.Opens scope ∧
    Expanding.run program.limit (expand written 0) = .ok plain ∧ reads scope plain meaning

namespace Literal

/-- A kind of literal whose chain is normalized node by node. -/
structure Denotes {element value : Type} (kind : ListKind) (literal : List (Token element) → Ty)
    (expand : element → Nat → Expanding element) (node : element → Ty → Ty) (last : Ty)
    (reads : Scope → element → value → Prop) (link : value → Form → Form) (finish : Form) : Prop
    extends Builds literal expand node last where
  /-- An element reads as one value at most. -/
  reads_unique : ∀ {scope written meaning meaning'}, reads scope written meaning →
    reads scope written meaning' → meaning = meaning'
  /-- The element and the tail of a node expand at its depth. -/
  expand_node : ∀ head tail depth, (node head tail).expand depth =
    return node (← expand head depth) (← tail.expand depth)
  /-- The end of the chain has nothing to be wrong with. -/
  normalize_last : ∀ scope, last.normalize scope = .clean finish
  /-- A node is in order if its element is, and its tail is a list. -/
  normalize_node : ∀ {scope head tail form}, (node head tail).normalize scope = .clean form ↔
    ∃ meaning rest, reads scope head meaning ∧ tail.normalize scope = .clean rest ∧
      rest.unmet scope.limit (.list kind) = [] ∧ link meaning rest = form
  /-- The end of the chain is the empty list. -/
  chain_finish : finish.Chain kind 0
  /-- Every node makes a list one longer. -/
  chain_link : ∀ meaning {length rest}, rest.Chain kind length →
    (link meaning rest).Chain kind (length + 1)
  /-- A node can be taken apart. -/
  link_inj : ∀ {meaning meaning' rest rest'}, link meaning rest = link meaning' rest' →
    meaning = meaning' ∧ rest = rest'
  /-- No node is the end of the chain. -/
  link_ne_finish : ∀ meaning rest, link meaning rest ≠ finish

theorem denotes_list :
    Denotes .types Ty.list Ty.expand .cons .nil
      (fun scope type form => type.normalize scope = .clean form) .cons .nil where
  toBuilds := builds_list
  reads_unique clean clean' := by
    cases clean.symm.trans clean'
    rfl
  expand_node _ _ _ := rfl
  normalize_last _ := rfl
  normalize_node := by
    simp [Ty.normalize, Form.formed_eq_clean_iff, Form.malformed]
  chain_finish := .nil
  chain_link head _ _ rest := .cons head rest
  link_inj same := by
    cases same
    exact ⟨rfl, rfl⟩
  link_ne_finish _ _ := nofun

theorem denotes_boolList :
    Denotes .bools Ty.boolList Constant.expand .boolCons .boolNil
      (fun scope constant value =>
        Constant.settle (constant.normalize scope) = .clean (some value))
      (fun value => .boolCons (some value)) .boolNil where
  toBuilds := builds_boolList
  reads_unique clean clean' := by
    cases clean.symm.trans clean'
    rfl
  expand_node _ _ _ := rfl
  normalize_last _ := rfl
  normalize_node {scope head tail form} := by
    simp only [Ty.normalize, Checked.bind_eq_clean_iff, Form.formed_eq_clean_iff, Form.malformed]
    constructor
    · intro clean
      obtain ⟨value, settled, rest, tailClean, rules, rfl⟩ := clean
      -- A constant that is in order has a value.
      obtain ⟨_, meaning, _, _, rfl⟩ := Constant.settle_eq_clean_iff.mp settled
      exact ⟨meaning, rest, settled, tailClean, rules, rfl⟩
    · intro parts
      obtain ⟨meaning, rest, settled, tailClean, rules, same⟩ := parts
      exact ⟨some meaning, settled, rest, tailClean, rules, same⟩
  chain_finish := .boolNil
  chain_link value _ _ rest := .boolCons value rest
  link_inj same := by
    cases same
    exact ⟨rfl, rfl⟩
  link_ne_finish _ _ := nofun

variable {element value : Type} {kind : ListKind} {literal : List (Token element) → Ty}
  {expand : element → Nat → Expanding element} {node : element → Ty → Ty} {last : Ty}
  {reads : Scope → element → value → Prop} {link : value → Form → Form} {finish : Form}

/-- A chain of as many nodes as there are values. -/
theorem Denotes.chain_foldr (denotes : Denotes kind literal expand node last reads link finish)
    (meanings : List value) : (meanings.foldr link finish).Chain kind meanings.length := by
  induction meanings with
  | nil => exact denotes.chain_finish
  | cons head rest ih => exact denotes.chain_link head ih

/-- Different values give different chains. -/
theorem Denotes.foldr_inj (denotes : Denotes kind literal expand node last reads link finish)
    {meanings meanings' : List value} :
    meanings.foldr link finish = meanings'.foldr link finish ↔ meanings = meanings' := by
  -- A node can be taken apart into what it was made of, and is never the end.
  induction meanings generalizing meanings' with
  | nil =>
    cases meanings' with
    | nil => simp
    | cons head rest => simpa using (denotes.link_ne_finish head _).symm
  | cons head rest ih =>
    cases meanings' with
    | nil => simpa using denotes.link_ne_finish head _
    | cons head' rest' =>
      rw [List.foldr_cons, List.foldr_cons, List.cons.injEq, ← ih]
      constructor
      · intro same
        exact denotes.link_inj same
      · intro parts
        rw [parts.1, parts.2]

/-- A chain that is short enough is in order exactly if its elements are. -/
theorem Denotes.normalize_chain_iff
    (denotes : Denotes kind literal expand node last reads link finish) {scope : Scope}
    {values : List element} (short : values.length ≤ scope.limit) {form : Form} :
    (values.foldr node last).normalize scope = .clean form ↔
      ∃ meanings, List.Forall₂ (reads scope) values meanings ∧
        meanings.foldr link finish = form := by
  induction values generalizing form with
  | nil =>
    rw [List.foldr_nil, denotes.normalize_last]
    simp [Checked.clean]
  | cons head rest ih =>
    rw [List.length_cons] at short
    rw [List.foldr_cons, denotes.normalize_node]
    simp only [ih (by omega), List.forall₂_cons_left_iff]
    constructor
    · intro parts
      obtain ⟨meaning, _, first, ⟨meanings, others, rfl⟩, _, rfl⟩ := parts
      exact ⟨meaning :: meanings, ⟨meaning, meanings, first, others, rfl⟩, rfl⟩
    · intro parts
      obtain ⟨_, ⟨meaning, meanings, first, others, rfl⟩, rfl⟩ := parts
      -- The tail is a list of the remaining elements, and one level short of the limit.
      have within : meanings.length < scope.limit := by
        rw [← others.length_eq]
        omega
      exact ⟨meaning, _, first, ⟨meanings, others, rfl⟩,
        (denotes.chain_foldr meanings).unmet_eq_nil within, rfl⟩

variable {program : Program} {tokens : List (Token element)} {written : List element} {form : Form}

/-- The tail of a node with a normal form has one that is a list. -/
theorem Denotes.gives_tail (denotes : Denotes kind literal expand node last reads link finish)
    {head : element} {tail : Ty} (gives : program.Gives (node head tail) form) :
    ∃ rest, program.Gives tail rest ∧ rest.unmet program.limit (.list kind) = [] := by
  obtain ⟨scope, plain, opens, expands, clean⟩ := gives
  rw [denotes.expand_node, ((denotes.regular head).lawful 0).run_map₂_eq_ok_iff
    (tail.regular_expand.lawful 0)] at expands
  obtain ⟨head', tail', _, tailExpands, rfl⟩ := expands
  obtain ⟨_, rest, _, tailClean, met, _⟩ := denotes.normalize_node.mp clean
  rw [opens.limit_eq] at met
  exact ⟨rest, ⟨scope, tail', opens, tailExpands, tailClean⟩, met⟩

/-- The tail of a node in which nothing is found is a chain. -/
theorem Denotes.chain_of_clean (denotes : Denotes kind literal expand node last reads link finish)
    {scope : Scope} (opens : program.Opens scope) {head : element} {tail : Ty}
    (clean : (node head tail).normalize scope = .clean form) :
    ∃ rest length, tail.normalize scope = .clean rest ∧ length < program.limit ∧
      rest.Chain kind length := by
  obtain ⟨_, rest, _, tailClean, met, _⟩ := denotes.normalize_node.mp clean
  rw [opens.limit_eq, Form.unmet_list_eq_nil_iff (opens.wellFormed tailClean).1] at met
  obtain ⟨length, short, chain⟩ := met
  exact ⟨rest, length, tailClean, short, chain⟩

/-- What an element stands for is read off what it expands to. -/
theorem stands_iff {scope : Scope} (opens : program.Opens scope) {element' plain : element}
    (made : Expanding.run program.limit (expand element' 0) = .ok plain) {meaning : value} :
    program.Stands expand reads element' meaning ↔ reads scope plain meaning := by
  constructor
  · intro stands
    obtain ⟨other, plain', opens', made', read⟩ := stands
    cases opens.unique opens'
    cases made.symm.trans made'
    exact read
  · intro read
    exact ⟨scope, plain, opens, made, read⟩

/-- What elements stand for is read off what they expand to, one by one. -/
theorem forall₂_stands_iff {scope : Scope} (opens : program.Opens scope) {values : List element}
    (made : List.Forall₂
      (fun element' plain => Expanding.run program.limit (expand element' 0) = .ok plain) written
      values) {meanings : List value} :
    List.Forall₂ (program.Stands expand reads) written meanings ↔
      List.Forall₂ (reads scope) values meanings := by
  induction made generalizing meanings with
  | nil => simp
  | cons first _ ih => simp only [List.forall₂_cons_left_iff, ih, stands_iff opens first]

/-- A literal that expands stands for the chain of what its elements stand for, if they all do. -/
theorem Denotes.gives_iff (denotes : Denotes kind literal expand node last reads link finish)
    (writes : Writes tokens written) (expands : program.Expands (literal tokens)) :
    program.Gives (literal tokens) form ↔
      ∃ meanings, List.Forall₂ (program.Stands expand reads) written meanings ∧
        meanings.foldr link finish = form := by
  obtain ⟨scope, plain, opens, run⟩ := expands
  obtain ⟨written', values, writes', within, makes, rfl⟩ := denotes.run_eq_ok_iff.mp run
  cases writes.filterMap.symm.trans writes'.filterMap
  have made := makes.outward denotes.regular
  -- The literal is within the limit, and so are the proofs that its tails are lists.
  have short : values.length ≤ scope.limit := by
    rw [← made.length_eq, opens.limit_eq]
    omega
  simp only [forall₂_stands_iff opens made, ← denotes.normalize_chain_iff short]
  constructor
  · intro gives
    obtain ⟨other, plain', opens', run', clean⟩ := gives
    cases opens.unique opens'
    cases run.symm.trans run'
    exact clean
  · intro clean
    exact ⟨scope, _, opens, run, clean⟩

/-- A literal that expands is well-formed exactly if all its elements are. -/
theorem Denotes.exists_gives_iff
    (denotes : Denotes kind literal expand node last reads link finish)
    (writes : Writes tokens written) (expands : program.Expands (literal tokens)) :
    (∃ form, program.Gives (literal tokens) form) ↔
      ∀ element' ∈ written, ∃ meaning, program.Stands expand reads element' meaning := by
  rw [← exists_forall₂_iff]
  simp only [denotes.gives_iff writes expands]
  constructor
  · intro parts
    obtain ⟨_, meanings, stands, _⟩ := parts
    exact ⟨meanings, stands⟩
  · intro parts
    obtain ⟨meanings, stands⟩ := parts
    exact ⟨_, meanings, stands, rfl⟩

/-- An element stands for one value at most. -/
theorem Denotes.stands_unique (denotes : Denotes kind literal expand node last reads link finish)
    {element' : element} {meaning meaning' : value}
    (stands : program.Stands expand reads element' meaning)
    (stands' : program.Stands expand reads element' meaning') : meaning = meaning' := by
  obtain ⟨scope, plain, opens, made, read⟩ := stands
  exact denotes.reads_unique read ((stands_iff opens made).mp stands')

/-- Two literals are the same type exactly if their elements stand for the same, one by one. -/
theorem Denotes.answer_sameIdentity
    (denotes : Denotes kind literal expand node last reads link finish) (sound : program.Sound)
    {left right : List (Token element)} {lefts rights : List element}
    (writes : Writes left lefts) (writes' : Writes right rights)
    (expands : program.Expands (literal left)) (expands' : program.Expands (literal right))
    (known : ∀ element' ∈ lefts ++ rights,
      ∃ meaning, program.Stands expand reads element' meaning) :
    ∃ same : Bool, program.answer (.sameIdentity (literal left) (literal right)) =
        .ok (.flag same) ∧
      (same = true ↔ List.Forall₂ (fun element' other => ∃ meaning,
        program.Stands expand reads element' meaning ∧
          program.Stands expand reads other meaning) lefts rights) := by
  -- The normal forms are chains, which are equal exactly if their values are.
  obtain ⟨meanings, stands⟩ := exists_forall₂_iff.mpr fun element' member =>
    known element' (List.mem_append_left _ member)
  obtain ⟨meanings', stands'⟩ := exists_forall₂_iff.mpr fun element' member =>
    known element' (List.mem_append_right _ member)
  have gives := (denotes.gives_iff writes expands).mpr ⟨meanings, stands, rfl⟩
  have gives' := (denotes.gives_iff writes' expands').mpr ⟨meanings', stands', rfl⟩
  refine ⟨_, gives.answer_sameIdentity sound gives', ?_⟩
  have compared := @images_eq_iff _ _ (program.Stands expand reads) denotes.stands_unique _ _ _ _
    stands stands'
  rw [decide_eq_true_iff, denotes.foldr_inj, compared]

end Literal

end TypeLists
