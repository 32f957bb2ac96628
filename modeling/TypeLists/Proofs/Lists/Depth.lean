import TypeLists.Proofs.Constant.Exposure
import TypeLists.Proofs.Identity
import TypeLists.Proofs.Lists.Identity
import TypeLists.Proofs.Lists.Literals
import TypeLists.Proofs.Query.Naming

/-! How deep the proofs of lists go: a chain is judged by the number of its nodes alone, however it is
spelled, and literals that expand are never too long. -/

namespace TypeLists

/-- What stands around a list until a projection takes it off. -/
inductive Layer where
  /-- The list is delayed. -/
  | thunk
  /-- The list is chosen, and below the choice it is delayed. -/
  | choice

/-- The form is a chain of so many nodes behind some layers. -/
inductive Form.Wraps (kind : ListKind) (length : Nat) : List Layer → Form → Prop where
  | chain {form : Form} (chain : form.Chain kind length) : Wraps kind length [] form
  | thunk {layers : List Layer} {form : Form} (inner : Wraps kind length layers form) :
    Wraps kind length (.thunk :: layers) (.wrap .thunk form)
  | choice {layers : List Layer} {form : Form} (value : Bool) (other : Form) (sized : other.sized)
      (chosen : Wraps kind length (.thunk :: layers) form) :
    Wraps kind length (.choice :: layers)
      (bif value then .choice (.bool (some value)) form other else .choice (.bool (some value)) other form)

/-- A program in order is only refused for its depth if too deep a proof is found. -/
theorem Scope.finds_tooDeep {scope : Scope} (quiet : scope.background = []) {result : Type}
    {checked : Checked result} (deep : scope.conclude checked = .error .tooDeep) :
    checked.Finds .tooDeep := by
  rw [conclude, quiet, List.nil_append, Fault.refuse_eq_error_iff] at deep
  exact Checked.finds_of_mem_faults (Refusal.mem_of_ofFaults? deep rfl)

namespace Program

/-- The type spells a chain of so many nodes behind some layers, with heads that can be named or evaluated. -/
inductive Spells (program : Program) : ListKind → Nat → List Layer → Ty → Prop where
  | nil : Spells program .types 0 [] .nil
  | boolNil : Spells program .bools 0 [] .boolNil
  | cons {length : Nat} {head tail : Ty} (named : program.Names head)
      (rest : Spells program .types length [] tail) :
    Spells program .types (length + 1) [] (.cons head tail)
  | boolCons {length : Nat} {constant : Constant Ty} {tail : Ty} {value : Bool}
      (evaluates : program.answer (.value .item constant) = .ok (.flag value))
      (rest : Spells program .bools length [] tail) :
    Spells program .bools (length + 1) [] (.boolCons constant tail)
  /-- A literal of a type list that expands. -/
  | list {tokens : List (Token Ty)} {types : List Ty} (writes : Literal.Writes tokens types)
      (expands : program.Expands (.list tokens)) (named : ∀ type ∈ types, program.Names type) :
    Spells program .types types.length [] (.list tokens)
  /-- A literal of a boolean list that expands. -/
  | boolList {tokens : List (Token (Constant Ty))} {constants : List (Constant Ty)}
      (writes : Literal.Writes tokens constants) (expands : program.Expands (.boolList tokens))
      (evaluate : ∀ constant ∈ constants, ∃ value,
        program.answer (.value .item constant) = .ok (.flag value)) :
    Spells program .bools constants.length [] (.boolList tokens)
  | named {kind : ListKind} {length : Nat} {layers : List Layer} {name : String} {body : Ty}
      (found : program.aliases.lookup name = some body) (inner : Spells program kind length layers body) :
    Spells program kind length layers (.named (.alias name))
  | thunk {kind : ListKind} {length : Nat} {layers : List Layer} {type : Ty}
      (inner : Spells program kind length layers type) :
    Spells program kind length (.thunk :: layers) (.wrap .thunk type)
  | output {kind : ListKind} {length : Nat} {layers : List Layer} {type : Ty}
      (inner : Spells program kind length (.thunk :: layers) type) :
    Spells program kind length layers (.output type)
  /-- A decided choice, of which the other branch is sized. -/
  | choice {kind : ListKind} {length : Nat} {layers : List Layer} {condition type other : Ty} {value : Bool}
      (decided : program.Gives condition (.bool (some value)))
      (sized : program.answer (.implements .sized other) = .ok (.flag true))
      (chosen : Spells program kind length (.thunk :: layers) type) :
    Spells program kind length (.choice :: layers) (.choosing condition value type other)
  /-- The proof that there is something to choose has two levels. -/
  | select {kind : ListKind} {length : Nat} {layers : List Layer} {type : Ty} (room : 2 ≤ program.limit)
      (inner : Spells program kind length (.choice :: layers) type) :
    Spells program kind length layers (.select type)

/-- The type stands for a form, and nothing but the depth of its proofs can be wrong with it. -/
structure Reads (program : Program) (type : Ty) (form : Form) (within : Prop) : Prop where
  fits : program.AliasesFit ∧ type.Fits program.limit 0
  value : (type.normalize program.scope).value = form
  whole : form.holes = []
  deep : ∀ finding ∈ (type.normalize program.scope).findings, finding = ⟨.formation, .tooDeep⟩
  within_iff : (type.normalize program.scope).findings = [] ↔ within

variable {program : Program} {type other : Ty} {form form' : Form} {within within' : Prop}

/-- A type that can be named is within the limit in all its proofs. -/
theorem Gives.reads (gives : program.Gives type form) : program.Reads type form True := by
  obtain ⟨fit, fits, clean⟩ := gives_scope_iff.mp gives
  refine ⟨⟨fit, fits⟩, by rw [clean]; rfl, List.eq_nil_iff_forall_not_mem.mpr gives.wellFormed.1, ?_, ?_⟩
  · rw [clean]
    exact fun finding member => absurd member List.not_mem_nil
  · rw [clean]
    exact iff_of_true rfl trivial

namespace Reads

theorem settled (reads : program.Reads type form within) : form.settled := by
  simp [Form.settled, reads.whole]

theorem gives (reads : program.Reads type form within) (inside : within) : program.Gives type form :=
  gives_scope_iff.mpr ⟨reads.fits.1, reads.fits.2,
    Checked.eq_clean_iff.mpr ⟨reads.value, reads.within_iff.mpr inside⟩⟩

theorem congr (reads : program.Reads type form within) (same : within ↔ within') :
    program.Reads type form within' :=
  { reads with within_iff := reads.within_iff.trans same }

/-- Where the type goes too deep, that is found in it. -/
theorem mem_findings (reads : program.Reads type form within) (exceeds : ¬ within) :
    ⟨.formation, .tooDeep⟩ ∈ (type.normalize program.scope).findings := by
  obtain ⟨finding, member⟩ := List.exists_mem_of_ne_nil _ (mt reads.within_iff.mp exceeds)
  exact reads.deep finding member ▸ member

end Reads

/-- Too deep a proof hides all that is found together with it. -/
theorem conclude_eq_tooDeep (sound : program.Sound) {result : Type} {checked : Checked result}
    (deep : ⟨.formation, .tooDeep⟩ ∈ checked.findings)
    (late : ∀ finding ∈ checked.findings, finding.stage = .formation) :
    program.scope.conclude checked = .error .tooDeep := by
  have early : Finding.faultsAt [.reported, .evaluation] checked.findings = [] :=
    Finding.faultsAt_eq_nil_iff.mpr fun finding member => by simp [late finding member]
  have inside : .tooDeep ∈ Finding.faultsAt [.projection, .formation] checked.findings :=
    List.mem_map.mpr ⟨_, List.mem_filter.mpr ⟨deep, by simp⟩, rfl⟩
  have faults : checked.faults = [.tooDeep] := by
    rw [Checked.faults, Finding.reported, early, Finding.cutOff, if_pos inside]
    rfl
  rw [Scope.conclude, faults, sound.background_scope]
  rfl

namespace Reads

/-- The tail of a chain goes too deep exactly if it has as many nodes as the limit allows levels. -/
theorem findings_tail (reads : program.Reads type form within) {kind : ListKind} {length : Nat}
    (chain : form.Chain kind length) {findings : List Finding}
    (same : findings = (form.unmet program.limit (.list kind)).map fun fault => ⟨.formation, fault⟩) :
    (∀ finding ∈ findings, finding = ⟨.formation, .tooDeep⟩) ∧ (findings = [] ↔ length < program.limit) := by
  subst same
  by_cases short : length < program.limit
  · rw [chain.unmet_eq_nil short]
    exact ⟨fun finding member => absurd member List.not_mem_nil, iff_of_true rfl short⟩
  · rw [chain.unmet_eq_tooDeep reads.settled (Nat.le_of_not_lt short)]
    exact ⟨fun finding member => List.mem_singleton.mp member, iff_of_false (List.cons_ne_nil _ _) short⟩

/-- A node goes too deep if its head or its tail does, or if its tail is too long to be proved a list. -/
theorem cons (first : program.Reads other form' within') (second : program.Reads type form within)
    {length : Nat} (chain : form.Chain .types length) :
    program.Reads (.cons other type) (.cons form' form) (within' ∧ within ∧ length < program.limit) := by
  have tail := second.findings_tail chain rfl
  have findings : ((Ty.cons other type).normalize program.scope).findings =
      (other.normalize program.scope).findings ++ ((type.normalize program.scope).findings ++
        (form.unmet program.limit (.list .types)).map fun fault => ⟨.formation, fault⟩) := by
    simp [Ty.normalize, Form.formed, Form.malformed, Checked.note, second.value]
  constructor
  case fits => exact ⟨first.fits.1, Ty.fits_cons_iff.mpr ⟨first.fits.2, second.fits.2⟩⟩
  case value => simp [Ty.normalize, Form.formed, first.value, second.value]
  case whole => simp [Form.holes, first.whole, second.whole]
  case deep =>
    rw [findings]
    exact List.forall_mem_append.mpr ⟨first.deep, List.forall_mem_append.mpr ⟨second.deep, tail.1⟩⟩
  case within_iff =>
    rw [findings, List.append_eq_nil_iff, List.append_eq_nil_iff, first.within_iff, second.within_iff, tail.2]

/-- A node of a boolean list whose head has a value goes too deep as its tail does. -/
theorem boolCons {constant : Constant Ty} {value : Bool}
    (settles : Constant.settle (constant.normalize program.scope) = .clean (some value))
    (fits : constant.Fits program.limit 0) (second : program.Reads type form within) {length : Nat}
    (chain : form.Chain .bools length) :
    program.Reads (.boolCons constant type) (.boolCons (some value) form)
      (within ∧ length < program.limit) := by
  have tail := second.findings_tail chain rfl
  have findings : ((Ty.boolCons constant type).normalize program.scope).findings =
      (type.normalize program.scope).findings ++
        (form.unmet program.limit (.list .bools)).map fun fault => ⟨.formation, fault⟩ := by
    simp [Ty.normalize, settles, Checked.clean, Form.formed, Form.malformed, Checked.note, second.value]
  constructor
  case fits => exact ⟨second.fits.1, Ty.fits_boolCons_iff.mpr ⟨fits, second.fits.2⟩⟩
  case value => simp [Ty.normalize, settles, Checked.clean, Form.formed, second.value]
  case whole => simp [Form.holes, second.whole]
  case deep =>
    rw [findings]
    exact List.forall_mem_append.mpr ⟨second.deep, tail.1⟩
  case within_iff => rw [findings, List.append_eq_nil_iff, second.within_iff, tail.2]

/-- An alias goes as deep as what it stands for. -/
theorem named (sound : program.Sound) {name : String} (found : program.aliases.lookup name = some type)
    (reads : program.Reads type form within) : program.Reads (.named (.alias name)) form within := by
  have same : (Ty.named (.alias name)).normalize program.scope = type.normalize program.scope :=
    sound.acyclic.meaning_eq found
  constructor
  case fits => exact ⟨reads.fits.1, by simp [Ty.Fits, Fitting, Ty.demands]⟩
  case value => rw [same, reads.value]
  case whole => exact reads.whole
  case deep => rw [same]; exact reads.deep
  case within_iff => rw [same, reads.within_iff]

/-- A delayed type goes as deep as what it delays. -/
theorem thunk (reads : program.Reads type form within) :
    program.Reads (.wrap .thunk type) (.wrap .thunk form) within := by
  have findings : ((Ty.wrap .thunk type).normalize program.scope).findings =
      (type.normalize program.scope).findings := by
    simp [Ty.normalize, Form.wrapped, Form.formed, Form.malformed, Checked.note, Wrapper.borrows,
      Wrapper.living, Wrapper.needsSized]
  constructor
  case fits => exact ⟨reads.fits.1, Ty.fits_wrap_iff.mpr reads.fits.2⟩
  case value => simp [Ty.normalize, Form.wrapped, Form.formed, Wrapper.living, reads.value]
  case whole => exact reads.whole
  case deep => rw [findings]; exact reads.deep
  case within_iff => rw [findings, reads.within_iff]

/-- A projection goes as deep as what it is taken of, if there is room for the proof that it can be taken. -/
theorem projected (reads : program.Reads type form within) {trait : Trait} (result? : Form → Option Form)
    (met : form.unmet program.limit trait = []) (gives : result? form = some form') (part : form'.holes = [])
    {whole : Ty} (fits : whole.Fits program.limit 0)
    (same : whole.normalize program.scope = do
      let subject ← type.normalize program.scope
      subject.projected program.limit trait (result? subject)) : program.Reads whole form' within := by
  have findings : (whole.normalize program.scope).findings = (type.normalize program.scope).findings := by
    simp [same, Form.projected, reads.value, met, Checked.note]
  constructor
  case fits => exact ⟨reads.fits.1, fits⟩
  case value => simp [same, Form.projected, reads.value, reads.settled, gives]
  case whole => exact part
  case deep => rw [findings]; exact reads.deep
  case within_iff => rw [findings, reads.within_iff]

theorem output (reads : program.Reads type (.wrap .thunk form) within) (positive : 1 ≤ program.limit) :
    program.Reads (.output type) form within := by
  have met : (Form.wrap .thunk form).unmet program.limit .eval = [] :=
    (Form.unmet_eq_nil_iff reads.settled).mpr ⟨positive, rfl⟩
  exact reads.projected Form.output? met rfl reads.whole (Ty.fits_output_iff.mpr reads.fits.2) rfl

/-- A choice between sized types goes too deep if one of its parts does. -/
theorem choice {condition positive negative : Ty} {condition' positive' negative' : Form}
    {first second third : Prop} (reads : program.Reads condition condition' first)
    (reads' : program.Reads positive positive' second) (reads'' : program.Reads negative negative' third)
    (sized : condition'.unmet program.limit .sized = [] ∧ positive'.unmet program.limit .sized = [] ∧
      negative'.unmet program.limit .sized = []) :
    program.Reads (.choice condition positive negative) (.choice condition' positive' negative')
      (first ∧ second ∧ third) := by
  have findings : ((Ty.choice condition positive negative).normalize program.scope).findings =
      (condition.normalize program.scope).findings ++ ((positive.normalize program.scope).findings ++
        (negative.normalize program.scope).findings) := by
    simp [Ty.normalize, Form.formed, Form.malformed, Checked.note, reads.value, reads'.value, reads''.value,
      sized]
  constructor
  case fits => exact ⟨reads.fits.1, Ty.fits_choice_iff.mpr ⟨reads.fits.2, reads'.fits.2, reads''.fits.2⟩⟩
  case value => simp [Ty.normalize, Form.formed, reads.value, reads'.value, reads''.value]
  case whole => simp [Form.holes, reads.whole, reads'.whole, reads''.whole]
  case deep =>
    rw [findings]
    exact List.forall_mem_append.mpr ⟨reads.deep, List.forall_mem_append.mpr ⟨reads'.deep, reads''.deep⟩⟩
  case within_iff =>
    rw [findings, List.append_eq_nil_iff, List.append_eq_nil_iff, reads.within_iff, reads'.within_iff,
      reads''.within_iff]

end Reads

/-- A literal whose elements stand for something is a chain with a node for each of them. -/
theorem gives_chain_of_literal {element value : Type} {kind : ListKind} {literal : List (Token element) → Ty}
    {expand : element → Nat → Expanding element} {node : element → Ty → Ty} {last : Ty}
    {reads : Scope → element → value → Prop} {link : value → Form → Form} {finish : Form}
    (denotes : Literal.Denotes kind literal expand node last reads link finish)
    {tokens : List (Token element)} {written : List element} (writes : Literal.Writes tokens written)
    (expands : program.Expands (literal tokens))
    (stands : ∀ member ∈ written, ∃ meaning, program.Stands expand reads member meaning) :
    ∃ form, form.Chain kind written.length ∧ program.Gives (literal tokens) form := by
  obtain ⟨meanings, all⟩ := exists_forall₂_iff.mpr stands
  refine ⟨meanings.foldr link finish, ?_, (denotes.gives_iff writes expands).mpr ⟨meanings, all, rfl⟩⟩
  rw [all.length_eq]
  exact denotes.chain_foldr meanings

/--
A type that spells a chain reads as the chain, and goes too deep exactly if the chain is longer than the
limit.
-/
theorem Spells.reads (sound : program.Sound) (positive : 1 ≤ program.limit) {kind : ListKind} {length : Nat}
    {layers : List Layer} (spells : program.Spells kind length layers type) :
    ∃ form, form.Wraps kind length layers ∧ program.Reads type form (length ≤ program.limit) := by
  have fit := exists_opens_iff.mp (sound.imp fun _ => And.left)
  induction spells with
  | nil | boolNil =>
    refine ⟨_, .chain (by constructor), Gives.reads (gives_scope_iff.mpr ⟨fit, ?_, rfl⟩) |>.congr (by simp)⟩
    simp [Ty.Fits, Fitting, Ty.demands, Ty.nil, Ty.boolNil]
  | @cons length head tail named rest ih =>
    obtain ⟨_, head', gives⟩ := names_iff.mp named
    obtain ⟨tail', ⟨chain⟩, reads⟩ := ih
    refine ⟨_, .chain (.cons head' chain), (gives.reads.cons reads chain).congr ?_⟩
    simp only [true_and]
    omega
  | @boolCons length constant tail value evaluates rest ih =>
    obtain ⟨tail', ⟨chain⟩, reads⟩ := ih
    obtain ⟨resolved, result, resolves, outcome, same⟩ := (answer_value_eq_ok_iff sound).mp evaluates
    cases same
    obtain ⟨expands, scope, opens, clean⟩ := resolves_iff.mp resolves
    have settles : Constant.settle (constant.normalize program.scope) = .clean (some value) := by
      rw [← opens.eq_scope]
      exact Constant.settle_eq_clean_iff.mpr ⟨resolved, value, clean, outcome, rfl⟩
    refine ⟨_, .chain (.boolCons value chain),
      (reads.boolCons settles (expandsConstant_iff.mp expands).2 chain).congr ?_⟩
    omega
  | @list tokens types writes expands named =>
    obtain ⟨form, chain, gives⟩ := gives_chain_of_literal Literal.denotes_list writes expands
      fun type member => (names_iff.mp (named type member)).2
    have allowed := (Ty.fits_list_iff.mp (expands_type_iff.mp expands).2).1.2
    rw [writes.filterMap] at allowed
    exact ⟨form, .chain chain, gives.reads.congr (iff_of_true trivial (by omega))⟩
  | @boolList tokens constants writes expands evaluate =>
    obtain ⟨form, chain, gives⟩ := gives_chain_of_literal Literal.denotes_boolList writes expands
      fun constant member => (evaluate constant member).imp fun _ => (stands_bool_iff sound).mpr
    have allowed := (Ty.fits_boolList_iff.mp (expands_type_iff.mp expands).2).1.2
    rw [writes.filterMap] at allowed
    exact ⟨form, .chain chain, gives.reads.congr (iff_of_true trivial (by omega))⟩
  | named found _ ih =>
    obtain ⟨form, wraps, reads⟩ := ih
    exact ⟨form, wraps, reads.named sound found⟩
  | thunk _ ih =>
    obtain ⟨form, wraps, reads⟩ := ih
    exact ⟨_, .thunk wraps, reads.thunk⟩
  | output _ ih =>
    obtain ⟨_, ⟨⟩ | ⟨wraps⟩, reads⟩ := ih
    exact ⟨_, wraps, reads.output positive⟩
  | @choice kind length layers condition type other value decided sized _ ih =>
    obtain ⟨form, wraps, reads⟩ := ih
    obtain ⟨rest, gives, met, _⟩ := (answer_implements_eq_ok_iff sound).mp sized
    have sized' := ((Form.unmet_eq_nil_iff (gives.wellFormed.settled not_false)).mp met).2
    have chosen : form.unmet program.limit .sized = [] := by
      cases wraps
      exact (Form.unmet_eq_nil_iff reads.settled).mpr ⟨positive, rfl⟩
    have condition' : (Form.bool (some value)).unmet program.limit .sized = [] :=
      unmet_sized_bool_iff.mpr positive
    refine ⟨_, .choice value rest sized' wraps, ?_⟩
    -- The chosen branch stands first or last.
    cases value with
    | true =>
      exact (decided.reads.choice reads gives.reads ⟨condition', chosen, met⟩).congr (by simp)
    | false =>
      exact (decided.reads.choice gives.reads reads ⟨condition', met, chosen⟩).congr (by simp)
  | @select kind length layers type room _ ih =>
    obtain ⟨_, wraps, reads⟩ := ih
    cases wraps with
    | choice value other sized chosen =>
      cases chosen with
      | @thunk _ form inner =>
        have gives := Form.select?_choosing value form other
        rw [if_pos sized] at gives
        have implements : Form.implements _ .select := Option.isSome_iff_exists.mpr ⟨form, gives⟩
        have met := (Form.unmet_eq_nil_iff reads.settled).mpr ⟨room, implements⟩
        have part : form.holes = [] := by
          have whole := reads.whole
          cases value <;> simp_all [Form.holes]
        have fits := Ty.fits_select_iff.mpr reads.fits.2
        exact ⟨form, inner, reads.projected Form.select? met gives part fits rfl⟩

namespace Reads

/-- Nothing is found in the type before its formers are held against their rules. -/
theorem late (reads : program.Reads type form within) :
    ∀ finding ∈ (type.normalize program.scope).findings, finding.stage = .formation :=
  fun finding member => by rw [reads.deep finding member]

theorem names_iff (reads : program.Reads type form within) (sound : program.Sound) :
    program.Names type ↔ within := by
  rw [Program.names_iff, and_iff_right sound]
  constructor
  · rintro ⟨_, gives⟩
    exact reads.within_iff.mp (by rw [(gives_scope_iff.mp gives).2.2]; rfl)
  · exact fun inside => ⟨form, reads.gives inside⟩

theorem answer_name (reads : program.Reads type form within) (sound : program.Sound) (exceeds : ¬ within) :
    program.answer (.name type) = .error .tooDeep := by
  rw [answer_of_fits reads.fits, Query.answer]
  exact conclude_eq_tooDeep sound (List.mem_append_left _ (reads.mem_findings exceeds))
    (List.forall_mem_append.mpr ⟨reads.late, fun finding member => absurd member List.not_mem_nil⟩)

/-- The proof that a chain is a list takes one level more than the chain has nodes. -/
theorem conclude_list {length : Nat} (reads : program.Reads type form (length ≤ program.limit))
    (sound : program.Sound) {kind : ListKind} (chain : form.Chain kind length) (value : Form → Value) :
    (program.scope.conclude do
      let form ← type.normalize program.scope
      Checked.note .formation (form.unmet program.scope.limit (.list kind))
      return value form) = if length < program.limit then .ok (value form) else .error .tooDeep := by
  by_cases short : length < program.limit
  · have clean := (gives_scope_iff.mp (reads.gives short.le)).2.2
    rw [if_pos short, clean]
    show program.scope.conclude (do
      Checked.note .formation (form.unmet program.scope.limit (.list kind))
      return value form) = _
    rw [Scope.conclude_unmet sound.background_scope, limit_scope, chain.unmet_eq_nil short]
    rfl
  · have deep := chain.unmet_eq_tooDeep reads.settled (Nat.le_of_not_lt short)
    rw [if_neg short]
    refine conclude_eq_tooDeep sound (List.mem_append_right _ ?_) (List.forall_mem_append.mpr ⟨reads.late, ?_⟩)
    · simp [reads.value, deep, Checked.note]
    · simp [reads.value, deep, Checked.note]

/-- Types are compared only if no proof in either of them is too deep. -/
theorem answer_compare (reads : program.Reads type form within) (reads' : program.Reads other form' within')
    (sound : program.Sound) (exceeds : ¬ (within ∧ within')) :
    ∀ query ∈ [Query.sameIdentity type other, .assertSame type other, .witness type other],
      program.answer query = .error .tooDeep := by
  have deep : ⟨.formation, .tooDeep⟩ ∈ (type.normalize program.scope).findings ++
      (other.normalize program.scope).findings := by
    rw [List.mem_append]
    by_cases inside : within
    · exact .inr (reads'.mem_findings fun inside' => exceeds ⟨inside, inside'⟩)
    · exact .inl (reads.mem_findings inside)
  have late (findings : List Finding) (behind : ∀ finding ∈ findings, finding.stage = .formation) :
      ∀ finding ∈ (type.normalize program.scope).findings ++
        ((other.normalize program.scope).findings ++ findings), finding.stage = .formation :=
    List.forall_mem_append.mpr ⟨reads.late, List.forall_mem_append.mpr ⟨reads'.late, behind⟩⟩
  have fits : program.AliasesFit ∧
      Fitting program.limit (type.Shaped ∧ other.Shaped) (type.demands 0 ++ other.demands 0) :=
    ⟨reads.fits.1, fitting_append_iff.mpr ⟨reads.fits.2, reads'.fits.2⟩⟩
  have identify : Ty.identify program.scope type other = .error .tooDeep := by
    refine conclude_eq_tooDeep sound ?_ (late _ ?_)
    · rw [Checked.findings_bind, Checked.findings_bind, ← List.append_assoc]
      exact List.mem_append_left _ deep
    · simp [Checked.note]
  simp only [List.forall_mem_cons]
  refine ⟨?_, ?_, ?_, fun _ member => absurd member List.not_mem_nil⟩
  · rw [answer_of_fits fits, Query.answer]
    refine conclude_eq_tooDeep sound ?_ (late _ fun _ member => absurd member List.not_mem_nil)
    rw [Checked.findings_bind, Checked.findings_bind, ← List.append_assoc]
    exact List.mem_append_left _ deep
  · rw [answer_of_fits fits, Query.answer, identify]
  · rw [answer_of_fits fits, Query.answer, identify]

end Reads

/-- What is asked of a chain is answered by the number of its nodes alone. -/
structure JudgedByLength (program : Program) (kind : ListKind) (length : Nat) (type : Ty) : Prop where
  /-- The length is known if it is below the limit. -/
  measured : program.answer (.length kind type) =
    if length < program.limit then .ok (.number length) else .error .tooDeep
  /-- So is that the chain is a list. -/
  listed : program.answer (.implements (.list kind) type) =
    if length < program.limit then .ok (.flag true) else .error .tooDeep
  /-- Naming the chain proves its tail alone to be a list, so that one more node is allowed. -/
  names_iff : program.Names type ↔ length ≤ program.limit
  unnamed : program.limit < length → program.answer (.name type) = .error .tooDeep
  /-- A chain that can be named can be compared with everything that can. -/
  compares : ∀ {other}, length ≤ program.limit → program.Names other → ∃ same : Bool,
    program.answer (.sameIdentity type other) = .ok (.flag same) ∧
      program.answer (.assertSame type other) = (if same then .ok (.flag true) else .error .illTyped) ∧
      program.answer (.witness type other) = if same then .ok (.flag true) else .error .illTyped
  /-- No longer chain can be compared with anything. -/
  incomparable : ∀ {other}, program.limit < length →
    (program.Names other ∨ ∃ kind' length', program.Spells kind' length' [] other) →
      ∀ query ∈ [Query.sameIdentity type other, .assertSame type other, .witness type other,
          .sameIdentity other type, .assertSame other type, .witness other type],
        program.answer query = .error .tooDeep
  /-- As an element the chain is judged by its own length, and the list around it by its own. -/
  nested : ∀ {tail count}, program.Spells .types count [] tail →
    (program.Names (.cons type tail) ↔ length ≤ program.limit ∧ count + 1 ≤ program.limit) ∧
      (¬ (length ≤ program.limit ∧ count + 1 ≤ program.limit) →
        program.answer (.name (.cons type tail)) = .error .tooDeep)

/-- However a chain is spelled, it is judged by the number of its nodes. -/
theorem Spells.judgedByLength (sound : program.Sound) (positive : 1 ≤ program.limit) {kind : ListKind}
    {length : Nat} (spells : program.Spells kind length [] type) :
    program.JudgedByLength kind length type := by
  obtain ⟨form, ⟨chain⟩, reads⟩ := spells.reads sound positive
  constructor
  case measured =>
    have concluded := reads.conclude_list sound chain fun form => .number (form.length kind)
    rw [chain.length_eq] at concluded
    rw [answer_of_fits reads.fits, Query.answer, concluded]
  case listed =>
    rw [answer_of_fits reads.fits, Query.answer]
    exact reads.conclude_list sound chain fun _ => .flag true
  case names_iff => exact reads.names_iff sound
  case unnamed => exact fun long => reads.answer_name sound (Nat.not_le_of_lt long)
  case compares =>
    intro other short named
    obtain ⟨_, form', gives'⟩ := Program.names_iff.mp named
    have gives := reads.gives short
    refine ⟨form = form', gives.answer_sameIdentity sound gives', ?_, ?_⟩
    · simp only [gives.answer_assertSame sound gives', decide_eq_true_eq]
    · simp only [gives.answer_witness sound gives', decide_eq_true_eq]
  case incomparable =>
    intro other long known query member
    have reads' : ∃ form' within', program.Reads other form' within' := by
      rcases known with named | ⟨_, _, spells'⟩
      · obtain ⟨_, form', gives'⟩ := Program.names_iff.mp named
        exact ⟨_, _, gives'.reads⟩
      · obtain ⟨_, _, reads'⟩ := spells'.reads sound positive
        exact ⟨_, _, reads'⟩
    obtain ⟨form', within', reads'⟩ := reads'
    have exceeds : ¬ length ≤ program.limit := Nat.not_le_of_lt long
    have first := reads.answer_compare reads' sound fun both => exceeds both.1
    have second := reads'.answer_compare reads sound fun both => exceeds both.2
    exact List.forall_mem_append.mpr ⟨first, second⟩ query member
  case nested =>
    intro tail count spells'
    obtain ⟨form', ⟨chain'⟩, reads'⟩ := spells'.reads sound positive
    have both : length ≤ program.limit ∧ count ≤ program.limit ∧ count < program.limit ↔
      length ≤ program.limit ∧ count + 1 ≤ program.limit := by omega
    have node := (reads.cons reads' chain').congr both
    exact ⟨node.names_iff sound, node.answer_name sound⟩

/--
Where all lists are written as literals, whatever is refused for its depth owes another proof that is too
deep: be it that the type is named, that it is to be a list, or that its length is asked for.
-/
theorem Literally.answers (sound : program.Sound) (positive : 1 ≤ program.limit)
    (literally : program.Literally type) (expands : program.Expands type) {query : Query}
    (asks : query = .name type ∨ ∃ kind, query = .implements (.list kind) type ∨ query = .length kind type)
    (deep : program.answer query = .error .tooDeep) : program.Overreaches type := by
  have fits := expands_type_iff.mp expands
  have short := literally.short sound positive expands
  have found {result : Type} {checked : Checked result}
      (deep : program.scope.conclude checked = .error .tooDeep) : checked.Finds .tooDeep :=
    Scope.finds_tooDeep sound.background_scope deep
  -- The proof that the type itself is a list is never too deep.
  have listed (kind : ListKind) {value : Form → Value} (deep : (program.scope.conclude do
      let form ← type.normalize program.scope
      Checked.note .formation (form.unmet program.scope.limit (.list kind))
      return value form) = .error .tooDeep) : program.Overreaches type := by
    obtain ⟨finding, member, same⟩ := found deep
    rcases List.mem_append.mp member with member | member
    · exact literally.overreaches sound positive expands ⟨finding, member, same⟩
    · simp only [Checked.findings_bind, Checked.note, Checked.findings_pure, List.append_nil] at member
      obtain ⟨fault, unmet, rfl⟩ := List.mem_map.mp member
      obtain rfl : fault = .tooDeep := same
      exact absurd unmet (short.not_tooDeep positive kind)
  rcases asks with rfl | ⟨kind, rfl | rfl⟩
  · rw [answer_of_fits fits, Query.answer] at deep
    obtain ⟨finding, member, same⟩ := found deep
    rw [Checked.findings_bind, Checked.findings_pure, List.append_nil] at member
    exact literally.overreaches sound positive expands ⟨finding, member, same⟩
  · rw [answer_of_fits fits, Query.answer] at deep
    exact listed kind deep
  · rw [answer_of_fits fits, Query.answer] at deep
    exact listed kind deep

theorem Literally.wrap (literally : program.Literally type) (wrapper : Wrapper) :
    program.Literally (.wrap wrapper type) := by
  rintro part (contains | ⟨used, found, involves⟩)
  · cases contains with
    | itself => simp
    | within member contains =>
      rw [List.mem_singleton.mp member] at contains
      exact literally part (.itself contains)
  · exact literally part (.through used found involves)

theorem literally_bool (value : Bool) : program.Literally (.bool (.literal value)) := by
  rintro part (contains | ⟨used, _, _⟩)
  · cases contains with
    | itself => simp
    | within member => exact absurd member List.not_mem_nil
  · exact absurd rfl used

end Program

end TypeLists
