import TypeLists.Proofs.Aliases.Inlining
import TypeLists.Proofs.Expansion.Substitution

/-! Aliases are transparent: those that a query does not lead to may be left out, and all others may be written
out, as far as the constants in their bodies and the lifetimes of their references allow it. -/

namespace TypeLists

/-- What lies behind an alias is told by every query that uses the alias. -/
theorem Scope.tells_alias {scope : Scope} {uses : TypeName → List (Option Mention)} {label : String}
    {fault : Fault} (used : uses (.alias label) ≠ [])
    (found : ⟨.reported, fault⟩ ∈ (scope.meaning (.alias label)).findings) :
    scope.Tells .named uses fault :=
  ⟨.alias label, used, found, fun _ _ => found⟩

/-- Names that stand for the same in two scopes are answered alike there. -/
theorem Scope.answers_of_meaning {scope scope' : Scope} {uses : TypeName → List (Option Mention)}
    (limit : scope.limit = scope'.limit) (lifetime : scope.lifetime = scope'.lifetime)
    (same : ∀ name, uses name ≠ [] → scope.meaning name = scope'.meaning name) :
    scope.Answers .named scope' .named uses where
  limit := limit
  lifetime := lifetime
  agrees name use member := by
    have respects : (scope.giving .named).Respects Eq (scope'.giving .named) := respects_eq limit lifetime
    exact respects.agrees (Checked.alike_of_eq (same name (List.ne_nil_of_mem member))) use
  called expression type name use member := by
    have respects : ((scope.withParams expression type).giving .named).Respects Eq
        ((scope'.withParams expression type).giving .named) := respects_eq limit lifetime
    refine respects.agrees ?_ use
    rcases name with label | param
    · exact Checked.alike_of_eq (same (.alias label) (List.ne_nil_of_mem member))
    · cases param <;> exact .refl _

namespace Signature

theorem form_ofChecked (limit : Nat) (checked : Checked Form) :
    (ofChecked limit checked).form = checked.value := by
  simp only [ofChecked]
  split
  · rfl
  · split <;> rfl

/-- The faults of a signature are those of its findings and of the rules that its form breaks. -/
theorem faults_ofChecked_congr {limit : Nat} {checked checked' : Checked Form}
    (findings : checked.findings = checked'.findings)
    (malformations : checked.value.malformations limit = checked'.value.malformations limit) :
    (ofChecked limit checked).faults = (ofChecked limit checked').faults := by
  simp only [ofChecked, findings, malformations]
  split
  · rfl
  · split <;> rfl

end Signature

/-- The answer of a form that is in order when its lifetimes are changed. -/
def Form.adaptation (direction : Direction) (form : Form) : Answer :=
  if form.adapts direction then .ok (.flag true) else .error .lifetime

/-- Types with the same findings are refused alike in two scopes, and adapt as their forms do otherwise. -/
theorem Ty.adapts_congr {scope scope' : Scope} {type type' : Ty} (direction : Direction)
    (alike : Checked.Alike
      (fun form form' => form.malformations scope.limit = form'.malformations scope.limit)
      (type.normalize scope.varying) (type'.normalize scope'.varying))
    (limit : scope.limit = scope'.limit)
    (background : scope.SameBackground .named scope' fun name => type.uses name) :
    ∃ checks : Except Refusal Unit,
      type.adapts scope direction =
        (do checks; (type.normalize scope.varying).value.adaptation direction) ∧
      type'.adapts scope' direction =
        (do checks; (type'.normalize scope'.varying).value.adaptation direction) := by
  have again (fault : Fault) (known : scope.Tells .named (fun name => type.uses name) fault) :
      fault ∈ (Signature.ofChecked scope.limit (type.normalize scope.varying)).faults := by
    have found := known.type
    rw [Ty.substitute_named, (type.normalize_varying scope).findings] at found
    exact List.mem_append_left _ (Signature.mem_reduction _ found)
  have refused := Fault.refuse_append_congr background again ()
  refine ⟨_, Fault.refuse_bind .. |>.trans (by rw [Signature.form_ofChecked]; rfl),
    (Fault.refuse_bind ..).trans ?_⟩
  rw [refused, Signature.faults_ofChecked_congr alike.findings alike.value, limit, Signature.form_ofChecked]
  rfl

namespace Program

variable {program program' : Program} {query : Query}

/-- The program without its aliases. -/
def plain (program : Program) : Program :=
  { program with aliases := [] }

/-- The query with all aliases of the program written out. -/
def inlined (program : Program) (query : Query) : Query :=
  query.substitute program.text

/-- Nothing is wrong with the constants in aliases that the query does not lead to. -/
def SoundApart (program : Program) (query : Query) : Prop :=
  ∀ name constant, program.Carries name constant → ¬ program.Reaches query name → program.Checks constant

/-- Aliases whose literals expand leave the expansion of a query as it is without them. -/
theorem AliasesFit.expansion_eq (fit : program.AliasesFit) (query : Query) :
    program.expansion query = (query.expand (Expansion.start program.limit)).2 := by
  -- A query without literals ends where the aliases do, which is where they started.
  have idle : (program.expansion (.forge .buildNil)).error? = none :=
    expands_iff.mpr ⟨fit, by simp [Query.Fits, Query.Shaped, Query.demands]⟩
  have back : (expandAliases program.aliases (Expansion.start program.limit)).2 =
      Expansion.start program.limit := expansion_eq_start idle
  show (query.expand (expandAliases program.aliases (Expansion.start program.limit)).2).2 = _
  rw [back]

/-- Behind an alias that a query leads to lies nothing but what lies behind one that it uses. -/
theorem Acyclic.tells_of_reaches (acyclic : program.Acyclic) {name : String} {fault : Fault}
    (reaches : program.Reaches query name)
    (found : ⟨.reported, fault⟩ ∈ (program.scope.meaning (.alias name)).findings) :
    program.scope.Tells .named (fun name => query.uses name) fault := by
  induction reaches with
  | used used => exact Scope.tells_alias used found
  | through _ defined used ih =>
    refine ih ?_
    rw [acyclic.meaning_eq defined]
    exact Ty.mem_findings_of_used found _ used

/-- What is wrong in the background is told by the query, if nothing is wrong apart from it. -/
theorem SoundApart.tells (sound : program.SoundApart query) (acyclic : program.Acyclic) {fault : Fault}
    (wrong : fault ∈ program.scope.background) :
    program.scope.Tells .named (fun name => query.uses name) fault := by
  obtain ⟨name, constant, carries, member⟩ := acyclic.mem_background_iff.mp wrong
  have reaches : program.Reaches query name := by
    by_contra apart
    rw [sound name constant carries apart] at member
    cases member
  obtain ⟨body, defined, leaf⟩ := carries
  refine acyclic.tells_of_reaches reaches ?_
  rw [acyclic.meaning_eq defined, ← Finding.mem_faultsAt_reported_iff, Ty.constantFaults_eq]
  exact List.mem_flatMap.mpr ⟨_, leaf, member⟩

/-- Programs with the same limit, whose aliases expand, answer a query alike if they do without literals. -/
theorem answer_eq_of_aliasesFit (limit : program.limit = program'.limit) (fit : program.AliasesFit)
    (fit' : program'.AliasesFit) (same : query.answer program.scope = query.answer program'.scope) :
    program.answer query = program'.answer query := by
  refine answer_congr ?_ same
  rw [fit.expansion_eq, fit'.expansion_eq, limit]

section Keeping

variable {keep : String → Bool}

/-- Among the aliases that a query leads to, each one stands for the same as among all. -/
theorem meaning_keeping (kept : ∀ name, keep name ↔ program.Reaches query name) {name : String}
    (reaches : program.Reaches query name) :
    (program.keeping keep).scope.meaning (.alias name) = program.scope.meaning (.alias name) := by
  have same (name : String) (reaches : program.Reaches query name) :
      program.aliases.lookup name = (program.keeping keep).aliases.lookup name :=
    (lookup_filter keep ((kept name).mpr reaches) program.aliases).symm
  exact (Scope.aliases_congr (program.Reaches query) le_rfl le_rfl
    (fun _ _ reaches found _ used => reaches.through found used) same reaches).symm

/-- Without literals, a query is answered the same with those aliases only that it leads to. -/
theorem Acyclic.answer_keeping (acyclic : program.Acyclic) (sound : program.SoundApart query)
    (kept : ∀ name, keep name ↔ program.Reaches query name) :
    query.answer (program.keeping keep).scope = query.answer program.scope := by
  have meaning (name : TypeName) (used : query.uses name ≠ []) :
      program.scope.meaning name = (program.keeping keep).scope.meaning name := by
    rcases name with label | param
    · exact (meaning_keeping kept (.used used)).symm
    · exact (Scope.aliases_param ..).trans (Scope.aliases_param ..).symm
  have background : program.scope.SameBackground .named (program.keeping keep).scope
      fun name => query.uses name := by
    intro fault silent
    refine iff_of_false (fun wrong => silent (sound.tells acyclic wrong)) fun wrong => silent ?_
    -- What is wrong among the kept aliases lies behind one that the query leads to.
    obtain ⟨name, body, defined, found⟩ := Program.mem_background_iff.mp wrong
    have reaches : program.Reaches query name := by
      rw [← kept]
      by_contra dropped
      rw [keeping, lookup_filter_of_dropped keep (by simpa using dropped)] at defined
      cases defined
    rw [meaning_keeping kept reaches] at found
    exact acyclic.tells_of_reaches reaches found
  have answers : program.scope.Answers .named (program.keeping keep).scope .named
      fun name => query.uses name := Scope.answers_of_meaning rfl rfl meaning
  have same := query.answer_substitute_congr answers background ?_
  · rw [Query.substitute_named] at same
    exact same.symm
  · rintro direction subject rfl
    have varying : program.scope.varying.Answers .named (program.keeping keep).scope.varying .named
        fun name => subject.uses name := Scope.answers_of_meaning rfl rfl meaning
    have read := varying.normalize
    rw [Ty.substitute_named] at read ⊢
    obtain ⟨checks, all, some⟩ := Ty.adapts_congr direction
      ((Checked.alike_of_eq read).mono fun _ _ same => by rw [same]) rfl background
    rw [all, some, read]

end Keeping

section Inlined

theorem meaning_param (program : Program) (param : Param) :
    program.scope.meaning (.param param) = Scope.circular (.param param) :=
  Scope.aliases_param ..

theorem Acyclic.param_unused (acyclic : program.Acyclic) {name : String} {body : Ty}
    (defined : program.aliases.lookup name = some body) (param : Param) : body.uses (.param param) = [] := by
  by_contra used
  obtain ⟨_, _, same, _⟩ := acyclic.defined name body defined _ used
  cases same

/-- The text of an alias is read as what it stands for in a program, wherever no alias is known. -/
theorem Acyclic.inlined_alike (acyclic : program.Acyclic) {scope : Scope} {related : Form → Form → Prop}
    (limit : scope.limit = program.limit) (bare : scope.Bare)
    (respects : ∀ outer inner : TypeName → Checked Form,
      Scope.Respects ⟨scope.limit, .static, outer, []⟩ related { scope with meaning := inner })
    (label : String) :
    Checked.Alike related (program.scope.meaning (.alias label))
      ((program.text (.alias label)).normalize scope) := by
  have alike := Scope.aliases_alike bare respects (fun _ _ => acyclic.param_unused) program.aliases.length label
  rw [limit] at alike
  exact alike

/-- What a query without aliases reads in place of a name is what the name stands for in the program. -/
theorem Acyclic.answers_inlined (acyclic : program.Acyclic) (uses : TypeName → List (Option Mention)) :
    program.scope.Answers .named program.plain.scope program.text uses where
  limit := rfl
  lifetime := rfl
  agrees name use _ := by
    have respects : (program.scope.giving .named).Respects Eq (program.plain.scope.giving program.text) :=
      Scope.respects_eq rfl rfl
    refine respects.agrees ?_ use
    rcases name with label | param
    · exact acyclic.inlined_alike rfl (fun _ => rfl) (fun _ _ => Scope.respects_eq rfl rfl) label
    · refine Checked.alike_of_eq ?_
      simp only [Scope.giving, text_param, Ty.normalize, meaning_param]
  called expression type name use _ := by
    have respects : ((program.scope.withParams expression type).giving .named).Respects Eq
        ((program.plain.scope.withParams expression type).giving program.text) := Scope.respects_eq rfl rfl
    refine respects.agrees ?_ use
    rcases name with label | param
    · exact acyclic.inlined_alike rfl (fun _ => rfl) (fun _ _ => Scope.respects_eq rfl rfl) label
    · refine Checked.alike_of_eq ?_
      simp only [Scope.giving, text_param, Ty.normalize]
      cases param <;> rfl

/-- The type that an alias stands for holds references, which live as long as the program. -/
def HoldsReference (program : Program) (name : String) : Prop :=
  (program.scope.meaning (.alias name)).value.living .varying ≠ (program.scope.meaning (.alias name)).value

/-- The backgrounds of a program and of its plain one are told by a query with nothing wrong apart from it. -/
theorem SoundApart.sameBackground (sound : program.SoundApart query) (acyclic : program.Acyclic) :
    program.scope.SameBackground .named program.plain.scope fun name => query.uses name :=
  fun _ silent => iff_of_false (fun wrong => silent (sound.tells acyclic wrong)) List.not_mem_nil

/-- Written out, a type in a signature is the same but for the lifetimes of references in aliases. -/
theorem Acyclic.signature_alike (acyclic : program.Acyclic) (subject : Ty) :
    Checked.Alike (fun form form' => form.living .varying = form')
      (subject.normalize program.scope.varying)
      ((subject.substitute program.text).normalize program.plain.scope.varying) := by
  rw [Ty.normalize_substitute]
  have respects : program.scope.varying.Respects (fun form form' => form.living .varying = form')
      (program.plain.scope.varying.giving program.text) :=
    Scope.respects_living rfl rfl
  refine subject.normalize_alike respects fun name use _ => respects.agrees ?_ use
  rcases name with label | param
  · exact acyclic.inlined_alike rfl (fun _ => rfl) (fun _ _ => Scope.respects_living rfl rfl) label
  · simp only [Scope.giving, Scope.varying, text_param, Ty.normalize, meaning_param]
    exact ⟨rfl, rfl⟩

/-- Without references in aliases, a type in a signature is the same when it is written out. -/
theorem Acyclic.signature_eq (acyclic : program.Acyclic) (subject : Ty)
    (free : ∀ name, subject.uses (.alias name) ≠ [] → ¬ program.HoldsReference name) :
    subject.normalize program.scope.varying =
      (subject.substitute program.text).normalize program.plain.scope.varying := by
  rw [Ty.normalize_substitute]
  have respects : program.scope.varying.Respects Eq
      (program.plain.scope.varying.giving program.text) :=
    Scope.respects_eq rfl rfl
  refine (subject.normalize_alike respects fun name use member => respects.agrees ?_ use).eq
  rcases name with label | param
  · have alike : Checked.Alike (fun form form' => form.living .varying = form')
        (program.scope.meaning (.alias label))
        ((program.text (.alias label)).normalize program.plain.scope.varying) :=
      acyclic.inlined_alike rfl (fun _ => rfl) (fun _ _ => Scope.respects_living rfl rfl) label
    have fixed := not_not.mp (free label (List.ne_nil_of_mem member))
    exact ⟨fixed.symm.trans alike.value, alike.findings⟩
  · refine Checked.alike_of_eq ?_
    simp only [Scope.giving, Scope.varying, text_param, Ty.normalize, meaning_param]

/--
Written out, a type adapts as before, unless a reference in an alias is fixed and would have to change.
-/
theorem Acyclic.adapts_inlined (acyclic : program.Acyclic) {direction : Direction} {subject : Ty}
    (sound : program.SoundApart (.adapts direction subject)) :
    subject.adapts program.scope direction =
        (subject.substitute program.text).adapts program.plain.scope direction ∨
      (∃ name, subject.uses (.alias name) ≠ [] ∧ program.HoldsReference name) ∧
        subject.adapts program.scope direction = .ok (.flag true) ∧
        (subject.substitute program.text).adapts program.plain.scope direction = .error .lifetime := by
  have alike := acyclic.signature_alike subject
  obtain ⟨checks, all, plain⟩ := Ty.adapts_congr direction
    (alike.mono fun form _ same => by rw [← same, form.malformations_living]) rfl (sound.sameBackground acyclic)
  rw [all, plain, ← alike.value]
  cases checks with
  | error refusal => exact .inl rfl
  | ok _ =>
    show Form.adaptation direction _ = Form.adaptation direction _ ∨ _ ∧ Form.adaptation direction _ = _ ∧
      Form.adaptation direction _ = _
    rw [Form.adaptation, Form.adaptation]
    by_cases changes : ((subject.normalize program.scope.varying).value.living .varying).adapts direction
    · exact .inl (by rw [if_pos changes, if_pos (Form.adapts_of_living changes)])
    · by_cases adapts : (subject.normalize program.scope.varying).value.adapts direction
      · refine .inr ⟨?_, if_pos adapts, if_neg changes⟩
        -- Without references in aliases, nothing would change when they are written out.
        by_contra free
        push Not at free
        rw [alike.value, ← acyclic.signature_eq subject fun name used holds => free name used holds] at changes
        exact changes adapts
      · exact .inl (by rw [if_neg changes, if_neg adapts])

/--
Without literals, a query is answered the same when its aliases are written out, unless its type holds a
reference in an alias that is fixed and would have to change.
-/
theorem Acyclic.answer_inlined (acyclic : program.Acyclic) (sound : program.SoundApart query) :
    query.answer program.scope = (program.inlined query).answer program.plain.scope ∨
      ∃ direction subject, query = .adapts direction subject ∧
        (∃ name, subject.uses (.alias name) ≠ [] ∧ program.HoldsReference name) ∧
        query.answer program.scope = .ok (.flag true) ∧
        (program.inlined query).answer program.plain.scope = .error .lifetime := by
  by_cases variance : ∃ direction subject, query = .adapts direction subject
  · obtain ⟨direction, subject, rfl⟩ := variance
    rcases acyclic.adapts_inlined sound with same | ⟨holds, changes, fixed⟩
    · exact .inl same
    · exact .inr ⟨direction, subject, rfl, holds, changes, fixed⟩
  · have same := query.answer_substitute_congr (acyclic.answers_inlined _) (sound.sameBackground acyclic)
      fun direction subject adapts => absurd ⟨direction, subject, adapts⟩ variance
    rw [Query.substitute_named] at same
    exact .inl same

end Inlined

/-- A query whose literals expand together with those of the aliases is answered as it is written. -/
theorem AliasesFit.answer_eq (fit : program.AliasesFit) (own : query.Fits program.limit) :
    program.answer query = query.answer program.scope := by
  rw [Program.answer_eq, expands_iff.mpr ⟨fit, own⟩]

/-- Nothing is wrong with the aliases exactly if nothing is wrong with the constants in them. -/
theorem Acyclic.background_eq_nil_iff (acyclic : program.Acyclic) : program.scope.background = [] ↔
    ∀ name constant, program.Carries name constant → program.Checks constant := by
  simp only [List.eq_nil_iff_forall_not_mem, acyclic.mem_background_iff, Checks]
  constructor
  · intro quiet name constant carries fault member
    exact quiet fault ⟨name, constant, carries, member⟩
  · rintro checks fault ⟨name, constant, carries, member⟩
    exact checks name constant carries fault member

/-- A type that nothing uses is accepted if all literals expand and nothing is wrong with the constants. -/
theorem Acyclic.mention_accepted_iff (acyclic : program.Acyclic) {type : Ty}
    (defined : program.Defines fun name => type.uses name) :
    program.answer (.mention type) = .ok (.flag true) ↔
      program.AliasesFit ∧ type.Fits program.limit 0 ∧
        (∀ name constant, program.Carries name constant → program.Checks constant) ∧
        ∀ constant, .carried constant ∈ type.leaves → program.Checks constant := by
  rw [← acyclic.background_eq_nil_iff, ← and_assoc]
  have expands : (program.expansion (.mention type)).error? = none ↔
      program.AliasesFit ∧ type.Fits program.limit 0 := expands_iff
  rw [← expands, Program.answer_eq]
  cases (program.expansion (.mention type)).error? with
  | some error => simp
  | none =>
    simp only [true_and, Query.answer, Fault.refuse_eq_ok_iff, List.append_eq_nil_iff, and_true]
    refine and_congr_right fun quiet => ?_
    rw [Ty.constantFaults, Ty.constantFaults_eq, List.flatMap_eq_nil_iff]
    constructor
    · intro silent constant member
      exact silent _ member
    · intro checks leaf member
      cases leaf with
      | carried constant => exact checks constant member
      | named name =>
        -- What lies behind an alias is wrong in the background as well.
        obtain ⟨label, body, rfl, found⟩ := defined name (type.uses_ne_nil_of_mem_leaves member)
        rw [List.eq_nil_iff_forall_not_mem]
        intro fault wrong
        have behind := Program.mem_background_iff.mpr
          ⟨label, body, found, Finding.mem_faultsAt_reported_iff.mp wrong⟩
        rw [quiet] at behind
        cases behind

/-- What aliases of a program may be replaced by, without a query that can tell. -/
structure Transparent (program : Program) : Prop where
  /-- Aliases that a query does not lead to may be left out, whatever their bodies are but for the constants. -/
  dropped (query : Query) (keep : String → Bool) (fit : program.AliasesFit)
    (kept : ∀ name, keep name ↔ program.Reaches query name) (sound : program.SoundApart query) :
    (program.keeping keep).answer query = program.answer query
  /--
  Aliases may be written out where their literals expand there as well. Only references show the difference: in
  an alias they live as long as the program, and need not change where they would have to when written out.
  -/
  written (query : Query) (fit : program.AliasesFit) (fits : (program.inlined query).Fits program.limit)
    (sound : program.SoundApart query) :
    program.answer query = program.plain.answer (program.inlined query) ∨
      ∃ direction subject, query = .adapts direction subject ∧
        (∃ name, subject.uses (.alias name) ≠ [] ∧ program.HoldsReference name) ∧
        program.answer query = .ok (.flag true) ∧
        program.plain.answer (program.inlined query) = .error .lifetime
  /-- A type in an alias that nobody uses is accepted for its literals and for the constants in it. -/
  mentioned (type : Ty) (defined : program.Defines fun name => type.uses name) :
    program.answer (.mention type) = .ok (.flag true) ↔
      program.AliasesFit ∧ type.Fits program.limit 0 ∧
        (∀ name constant, program.Carries name constant → program.Checks constant) ∧
        ∀ constant, .carried constant ∈ type.leaves → program.Checks constant

/-- Aliases that do not go round in a circle are transparent. -/
theorem aliases_transparent (acyclic : program.Acyclic) : program.Transparent where
  dropped query keep fit kept sound := by
    have fit' : (program.keeping keep).AliasesFit := fun definition member =>
      fit definition (List.mem_filter.mp member).1
    exact answer_eq_of_aliasesFit rfl fit' fit (acyclic.answer_keeping sound kept)
  written query fit fits sound := by
    have own : query.Fits program.limit := (query.fits_substitute_iff.mp fits).1
    have plain : program.plain.AliasesFit := fun _ member => absurd member List.not_mem_nil
    rw [fit.answer_eq own, plain.answer_eq fits]
    exact acyclic.answer_inlined sound
  mentioned _ defined := acyclic.mention_accepted_iff defined

/-- A program with an alias, another one that uses it, and a third one that stands for an ill-formed list. -/
def threefold : Program where
  limit := defaultLimit
  aliases := [("A_", .bool (.literal true)), ("B_", .wrap .not (.named (.alias "A_"))),
    ("C_", .cons (.atom .nil) (.atom .boolNil))]
  queries := []

theorem lookup_threefold {name : String} {body : Ty} (found : threefold.aliases.lookup name = some body) :
    (name = "A_" ∧ body = .bool (.literal true)) ∨
      (name = "B_" ∧ body = .wrap .not (.named (.alias "A_"))) ∨
      (name = "C_" ∧ body = .cons (.atom .nil) (.atom .boolNil)) := by
  obtain ⟨front, back, split, _⟩ := List.lookup_eq_some_iff.mp found
  have member : (name, body) ∈ threefold.aliases := split ▸ List.mem_append_right _ List.mem_cons_self
  simpa [threefold] using member

theorem uses_second {other : TypeName} (used : (Ty.wrap .not (.named (.alias "A_"))).uses other ≠ []) :
    other = .alias "A_" := by
  by_contra different
  exact used (if_neg fun same => different same.symm)

theorem acyclic_threefold : threefold.Acyclic where
  ranked := by
    refine ⟨fun name => if name = "B_" then 1 else 0, fun name body found other used => ?_⟩
    rcases lookup_threefold found with ⟨rfl, rfl⟩ | ⟨rfl, rfl⟩ | ⟨rfl, rfl⟩
    · exact absurd rfl used
    · cases uses_second used
      decide
    · exact absurd rfl used
  defined := by
    intro name body found other used
    rcases lookup_threefold found with ⟨rfl, rfl⟩ | ⟨rfl, rfl⟩ | ⟨rfl, rfl⟩
    · exact absurd rfl used
    · exact ⟨"A_", _, uses_second used, rfl⟩
    · exact absurd rfl used

theorem checks_threefold {name : String} {constant : Constant Ty} (carries : threefold.Carries name constant) :
    threefold.Checks constant := by
  obtain ⟨body, found, leaf⟩ := carries
  rcases lookup_threefold found with ⟨rfl, rfl⟩ | ⟨rfl, rfl⟩ | ⟨rfl, rfl⟩
  · cases List.mem_singleton.mp leaf
    rfl
  · cases List.mem_singleton.mp leaf
  · cases leaf

/-- The value of the second alias leads to the first one as well, and to no other. -/
theorem reaches_threefold (name : String) : decide (name = "A_" ∨ name = "B_") ↔
    threefold.Reaches (.value .item (.mention .value (.named (.alias "B_")))) name := by
  rw [decide_eq_true_iff]
  have second : threefold.Reaches (.value .item (.mention .value (.named (.alias "B_")))) "B_" :=
    .used (List.cons_ne_nil _ _)
  constructor
  · rintro (rfl | rfl)
    · exact second.through rfl (List.cons_ne_nil _ _)
    · exact second
  · intro reaches
    induction reaches with
    | used used =>
      simp only [Query.uses, Constant.uses, Ty.isName, Ty.uses] at used
      by_contra other
      simp_all
    | through _ found used _ =>
      rcases lookup_threefold found with ⟨rfl, rfl⟩ | ⟨rfl, rfl⟩ | ⟨rfl, rfl⟩
      · exact absurd rfl used
      · cases uses_second used
        exact .inl rfl
      · exact absurd rfl used

/-- The ill-formed alias may be left out, the others written out, and nothing is asked of an unused one. -/
theorem aliases_transparent_in_threefold :
    (threefold.keeping fun name => name = "A_" ∨ name = "B_").answer
        (.value .item (.mention .value (.named (.alias "B_")))) =
      threefold.answer (.value .item (.mention .value (.named (.alias "B_")))) ∧
    threefold.answer (.value .item (.mention .value (.named (.alias "B_")))) =
      threefold.plain.answer (threefold.inlined (.value .item (.mention .value (.named (.alias "B_"))))) ∧
    threefold.answer (.mention (.named (.alias "C_"))) = .ok (.flag true) := by
  have transparent : threefold.Transparent := aliases_transparent acyclic_threefold
  have expands : (threefold.expansion (.mention (.named (.alias "C_")))).error? = none := rfl
  obtain ⟨fit, _⟩ := expands_iff.mp expands
  have written : (threefold.plain.expansion
      (threefold.inlined (.value .item (.mention .value (.named (.alias "B_")))))).error? = none := rfl
  refine ⟨transparent.dropped _ _ fit reaches_threefold fun _ _ carries _ => checks_threefold carries, ?_, ?_⟩
  · rcases transparent.written _ fit (expands_iff.mp written).2 fun _ _ carries _ => checks_threefold carries
      with same | ⟨_, _, variance, _⟩
    · exact same
    · cases variance
  · refine (transparent.mentioned _ fun name used => ?_).mpr
      ⟨fit, (expands_iff.mp expands).2, fun _ _ => checks_threefold, fun _ leaf => ?_⟩
    · have same : TypeName.alias "C_" = name := by
        by_contra different
        exact used (if_neg different)
      exact ⟨"C_", _, same.symm, rfl⟩
    · cases List.mem_singleton.mp leaf

/-- A program with one alias whose body uses no names is without circles. -/
theorem acyclic_single {limit : Nat} {label : String} {body : Ty} (closed : ∀ name, body.uses name = []) :
    Acyclic ⟨limit, [(label, body)], []⟩ := by
  have only {name : String} {other : Ty} (found : [(label, body)].lookup name = some other) : other = body := by
    obtain ⟨front, back, split, _⟩ := List.lookup_eq_some_iff.mp found
    have member : (name, other) ∈ [(label, body)] := split ▸ List.mem_append_right _ List.mem_cons_self
    exact (Prod.mk.inj (List.mem_singleton.mp member)).2
  refine ⟨⟨fun _ => 0, fun name other found next used => ?_⟩, fun name other found next used => ?_⟩
  · cases only found
    exact absurd (closed _) used
  · cases only found
    exact absurd (closed _) used

/-- A program with an alias that carries an ill-typed constant. -/
def shelved : Program := ⟨defaultLimit, [("A_", .bool (.mention .value (.atom .nil)))], []⟩

/-- A program with an alias that stands for a reference. -/
def borrowed : Program := ⟨defaultLimit, [("R_", .wrap (.ref .static) (.atom (.primitive .str)))], []⟩

/--
Constants are checked in aliases that nobody uses, and references in aliases are not adapted: without regard to
them, aliases could neither be left out nor written out, nor be accepted for their literals.
-/
theorem aliases_not_always_transparent :
    (¬ ∀ (program : Program) (query : Query) (keep : String → Bool), program.Acyclic → program.AliasesFit →
      (∀ name, keep name ↔ program.Reaches query name) →
      (program.keeping keep).answer query = program.answer query) ∧
    (¬ ∀ (program : Program) (query : Query), program.Acyclic → program.AliasesFit →
      (program.inlined query).Fits program.limit →
      program.answer query = program.plain.answer (program.inlined query)) ∧
    ¬ ∀ (program : Program) (type : Ty), program.Acyclic → (program.Defines fun name => type.uses name) →
      (program.answer (.mention type) = .ok (.flag true) ↔
        program.AliasesFit ∧ type.Fits program.limit 0) := by
  refine ⟨fun all => ?_, fun all => ?_, fun all => ?_⟩
  · have expands : (shelved.expansion (.name (.atom .nil))).error? = none := rfl
    have unreached (name : String) : ¬ shelved.Reaches (.name (.atom .nil)) name := by
      intro reaches
      induction reaches with
      | used used => exact used rfl
      | through _ _ _ ih => exact ih
    have same := all shelved (.name (.atom .nil)) (fun _ => false) (acyclic_single fun _ => rfl)
      (expands_iff.mp expands).1 fun name => iff_of_false Bool.false_ne_true (unreached name)
    revert same
    decide
  · have fit : borrowed.AliasesFit := by
      have expands : (borrowed.expansion (.name (.atom .nil))).error? = none := rfl
      exact (expands_iff.mp expands).1
    have expands : (borrowed.plain.expansion
        (borrowed.inlined (.adapts .lengthen (.named (.alias "R_"))))).error? = none := rfl
    have same := all borrowed (.adapts .lengthen (.named (.alias "R_"))) (acyclic_single fun _ => rfl) fit
      (expands_iff.mp expands).2
    revert same
    decide
  · have expands : (bare.expansion (.mention (.bool (.mention .value (.atom .nil))))).error? = none := rfl
    have accepted := (all bare (.bool (.mention .value (.atom .nil)))
      ⟨⟨fun _ => 0, nofun⟩, nofun⟩ (fun _ used => absurd rfl used)).mpr (expands_iff.mp expands)
    revert accepted
    decide

end Program

end TypeLists
