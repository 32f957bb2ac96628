import Mathlib.Order.Lattice.Nat
import TypeLists.Proofs.Aliases.Transparency
import TypeLists.Proofs.Normalization.Obligations

/-! Obligations of a program: what a type owes by itself and through the aliases that it uses. In a program
whose aliases are in order, these obligations decide which faults are found in the type. -/

namespace TypeLists

/-- The fault is one that naming a type can lead to, where no pointer is asked for and no lifetime. -/
def Fault.Ordinary (fault : Fault) : Prop :=
  fault ≠ .mismatched ∧ fault ≠ .outlives

/-- Obligations lead to ordinary faults only. -/
theorem Obligation.ordinary {scope : Scope} {obligation : Obligation} {fault : Fault}
    (wrong : fault ∈ obligation.faults scope) : fault.Ordinary := by
  rcases Obligation.fault_cases wrong with rfl | ⟨rfl, _⟩ | ⟨_, rfl⟩ | ⟨rfl, _⟩ <;> exact ⟨by simp, by simp⟩

namespace Scope

/-- Aliases stand for types without parameters in them. -/
theorem closed_aliases (limit depth : Nat) (definitions : List (String × Ty)) (background : List Fault) :
    Scope.Closed ⟨limit, .static, aliases limit depth definitions, background⟩ := by
  -- The induction is on the levels: the body of an alias is read one level lower.
  induction depth generalizing definitions background with
  | zero => exact ⟨fun _ => rfl, fun _ finding member => by simp [aliases, circular] at member; simp [member]⟩
  | succ depth ih =>
    constructor
    · rintro (name | param)
      · simp only [aliases]
        split
        · exact (ih _ _).normalize _
        · rfl
      · rfl
    · rintro (name | param)
      · simp only [aliases]
        split
        · exact (Ty.accounts (ih _ _) _).early
        · intro finding member
          simp [circular] at member
          simp [member]
      · intro finding member
        simp [aliases, circular] at member
        simp [member]

/-- A type leads to ordinary faults only where the names in it do. -/
theorem Closed.ordinary {scope : Scope} (closed : scope.Closed)
    (names : ∀ name fault, (scope.meaning name).Finds fault → fault.Ordinary) {type : Ty} {fault : Fault}
    (found : (type.normalize scope).Finds fault) : fault.Ordinary := by
  rcases (type.accounts closed).blames fault found with ⟨_, _, wrong⟩ | ⟨name, _, found⟩
  · exact Obligation.ordinary wrong
  · exact names name fault found

theorem ordinary_circular {name : TypeName} {fault : Fault} (found : (circular name).Finds fault) :
    fault.Ordinary := by
  obtain ⟨finding, member, rfl⟩ := found
  rw [List.mem_singleton.mp member]
  exact ⟨by simp, by simp⟩

/-- Behind aliases lie ordinary faults only. -/
theorem ordinary_aliases {limit depth : Nat} {definitions : List (String × Ty)} {name : TypeName}
    {fault : Fault} (found : (aliases limit depth definitions name).Finds fault) : fault.Ordinary := by
  induction depth generalizing definitions name fault with
  | zero => exact ordinary_circular found
  | succ depth ih =>
    rcases name with name | param
    · simp only [aliases] at found
      split at found
      · exact (closed_aliases limit depth _ []).ordinary (fun _ _ inner => ih inner) found
      · exact ordinary_circular found
    · exact ordinary_circular found

end Scope

namespace Program

variable {program : Program} {fault : Fault}

/-- Naming a type leads to ordinary faults only, and so do the aliases. -/
theorem ordinary_of_finds {type : Ty} (found : (type.normalize program.scope).Finds fault) :
    fault.Ordinary :=
  (Scope.closed_aliases ..).ordinary (fun _ _ inner => Scope.ordinary_aliases inner) found

theorem ordinary_of_mem_background (member : fault ∈ program.scope.background) : fault.Ordinary := by
  obtain ⟨name, _, _, found⟩ := mem_background_iff.mp member
  exact Scope.ordinary_aliases ⟨_, found, rfl⟩

theorem closed_scope (program : Program) : program.scope.Closed :=
  Scope.closed_aliases program.limit _ program.aliases _

/-- Looking up an alias, then an alias in its body and so on comes to an end within so many steps. -/
def Descends (program : Program) : Nat → String → Prop
  | 0, _ => False
  | steps + 1, name => ∃ body, program.aliases.lookup name = some body ∧
    ∀ other, body.uses (.alias other) ≠ [] → program.Descends steps other

/-- An alias behind which no circle is found leads to an end. -/
theorem descends_of_quiet {depth : Nat} {definitions : List (String × Ty)} {name : String}
    (fewer : ∀ label body, definitions.lookup label = some body →
      program.aliases.lookup label = some body)
    (quiet : ⟨.reported, .cyclic⟩ ∉
      (Scope.aliases program.limit depth definitions (.alias name)).findings) :
    program.Descends depth name := by
  induction depth generalizing definitions name with
  | zero => exact absurd List.mem_cons_self quiet
  | succ depth ih =>
    cases found : definitions.lookup name with
    | none =>
      rw [Scope.aliases_of_lookup_none found] at quiet
      exact absurd List.mem_cons_self quiet
    | some body =>
      simp only [Scope.aliases, found] at quiet
      refine ⟨body, fewer name body found, fun other used => ?_⟩
      -- A circle behind the body would be found in the alias.
      exact ih (fun label inner kept => fewer label inner (Scope.lookup_filter_ne.mp kept).2)
        fun circle => quiet (Ty.mem_findings_of_used circle body used)

/-- Aliases in order refer to aliases of the program alone, and never in a circle. -/
theorem Sound.acyclic (sound : program.Sound) : program.Acyclic := by
  have quiet {name : String} {body : Ty} (found : program.aliases.lookup name = some body) (fault : Fault) :
      ⟨.reported, fault⟩ ∉ (program.scope.meaning (.alias name)).findings := by
    intro member
    have wrong := mem_background_iff.mpr ⟨name, body, found, member⟩
    rw [sound.background_scope] at wrong
    exact List.not_mem_nil wrong
  have descends {name : String} {body : Ty} (found : program.aliases.lookup name = some body) :
      program.Descends program.aliases.length name :=
    descends_of_quiet (fun _ _ found => found) (quiet found .cyclic)
  constructor
  · -- The rank of an alias is the number of steps after which it comes to an end.
    refine ⟨fun name => sInf {steps | program.Descends steps name}, fun name body found other used => ?_⟩
    show sInf {steps | program.Descends steps other} < sInf {steps | program.Descends steps name}
    have ends : {steps | program.Descends steps name}.Nonempty := ⟨_, descends found⟩
    have least := Nat.sInf_mem ends
    cases rank : sInf {steps | program.Descends steps name} with
    | zero =>
      rw [rank] at least
      exact least.elim
    | succ steps =>
      rw [rank] at least
      obtain ⟨inner, found', lower⟩ := least
      cases found.symm.trans found'
      have within : steps ∈ {steps | program.Descends steps other} := lower other used
      exact Nat.lt_succ_of_le (Nat.sInf_le within)
  · intro name body found other used
    -- A name that is no alias would be found where the body is read.
    obtain ⟨lower, _, _, read⟩ := Scope.aliases_of_lookup_some program.limit found le_rfl
    have missing (circle : Scope.aliases program.limit lower
        (program.aliases.filter fun definition => definition.1 ≠ name) other = Scope.circular other) : False := by
      refine quiet found .cyclic ?_
      show _ ∈ (Scope.aliases program.limit program.aliases.length program.aliases (.alias name)).findings
      rw [read]
      refine Ty.mem_findings_of_used ?_ body used
      exact (congrArg (fun meaning => (⟨.reported, .cyclic⟩ : Finding) ∈ meaning.findings) circle).mpr
        List.mem_cons_self
    rcases other with label | param
    · cases defined : program.aliases.lookup label with
      | some inner => exact ⟨label, inner, rfl, defined⟩
      | none =>
        refine (missing (Scope.aliases_of_lookup_none ?_)).elim
        cases kept : (program.aliases.filter fun definition => definition.1 ≠ name).lookup label with
        | none => rfl
        | some inner => exact absurd ((Scope.lookup_filter_ne.mp kept).2.symm.trans defined) (by simp)
    · exact (missing (Scope.aliases_param ..)).elim

/-- The type owes something by itself, or through the aliases that it uses. -/
inductive Owes (program : Program) : Ty → Obligation → Prop where
  | itself {type : Ty} {obligation : Obligation} (member : obligation ∈ type.obligations) :
    Owes program type obligation
  | through {type body : Ty} {name : String} {obligation : Obligation}
    (used : type.uses (.alias name) ≠ []) (found : program.aliases.lookup name = some body)
    (owes : Owes program body obligation) : Owes program type obligation

/-- A name that stands for nothing is a circle. -/
theorem meaning_of_undefined {name : TypeName}
    (undefined : ¬ ∃ label body, name = .alias label ∧ program.aliases.lookup label = some body) :
    program.scope.meaning name = Scope.circular name := by
  rcases name with label | param
  · refine Scope.aliases_of_lookup_none ?_
    rw [Option.eq_none_iff_forall_ne_some]
    exact fun body found => undefined ⟨label, body, rfl, found⟩
  · exact program.meaning_param param

/-- What is found behind an alias is found in its body, and what is found behind another name is a circle. -/
theorem Acyclic.finds_meaning (acyclic : program.Acyclic) {name : TypeName}
    (found : (program.scope.meaning name).Finds fault) :
    (∃ label body, name = .alias label ∧ program.aliases.lookup label = some body ∧
      (body.normalize program.scope).Finds fault) ∨
    fault = .cyclic ∧ ¬ ∃ label body, name = .alias label ∧ program.aliases.lookup label = some body := by
  by_cases defined : ∃ label body, name = .alias label ∧ program.aliases.lookup label = some body
  · obtain ⟨label, body, rfl, lookup⟩ := defined
    exact .inl ⟨label, body, rfl, lookup, acyclic.meaning_eq lookup ▸ found⟩
  · obtain ⟨finding, member, rfl⟩ := found
    rw [meaning_of_undefined defined] at member
    rw [List.mem_singleton.mp member]
    exact .inr ⟨rfl, defined⟩

/--
Whatever is found in a type is a fault of something that it owes, unless it uses a name that stands for nothing.
-/
theorem Acyclic.owes_of_finds (acyclic : program.Acyclic) {type : Ty}
    (found : (type.normalize program.scope).Finds fault) :
    (∃ obligation, program.Owes type obligation ∧ fault ∈ obligation.faults program.scope) ∨
      fault = .cyclic ∧ ¬ program.Defines fun name => type.uses name := by
  have step {type : Ty} (behind : ∀ label body, type.uses (.alias label) ≠ [] →
      program.aliases.lookup label = some body → (body.normalize program.scope).Finds fault →
        ∃ obligation, program.Owes body obligation ∧ fault ∈ obligation.faults program.scope)
      (found : (type.normalize program.scope).Finds fault) :
      (∃ obligation, program.Owes type obligation ∧ fault ∈ obligation.faults program.scope) ∨
        fault = .cyclic ∧ ¬ program.Defines fun name => type.uses name := by
    rcases (type.accounts program.closed_scope).blames fault found with ⟨obligation, member, wrong⟩ |
        ⟨name, used, found⟩
    · exact .inl ⟨obligation, .itself member, wrong⟩
    · rcases acyclic.finds_meaning found with ⟨label, body, rfl, defined, found⟩ | ⟨circle, undefined⟩
      · obtain ⟨obligation, owes, wrong⟩ := behind label body used defined found
        exact .inl ⟨obligation, .through used defined owes, wrong⟩
      · exact .inr ⟨circle, fun defines => undefined (defines name used)⟩
  -- The fault is followed from alias to alias, whose rank becomes smaller.
  obtain ⟨rank, ranked⟩ := acyclic.ranked
  have behind : ∀ level label body, rank label = level → program.aliases.lookup label = some body →
      (body.normalize program.scope).Finds fault →
        ∃ obligation, program.Owes body obligation ∧ fault ∈ obligation.faults program.scope := by
    intro level
    induction level using Nat.strong_induction_on with
    | h level ih =>
      rintro label body rfl defined found
      rcases step (fun other inner used defined' found' =>
        ih (rank other) (ranked label body defined other used) other inner rfl defined' found') found with
        owes | ⟨_, undefined⟩
      · exact owes
      · exact absurd (acyclic.defined label body defined) undefined
  exact step (fun label body _ defined found => behind _ label body rfl defined found) found

/-- What a type owes and does not meet is found in it, unless too deep a proof is found instead. -/
theorem Acyclic.finds_of_owes (acyclic : program.Acyclic) {type : Ty} {obligation : Obligation}
    (owes : program.Owes type obligation) (wrong : fault ∈ obligation.faults program.scope)
    (whole : fault = .tooDeep ∨ ¬ (type.normalize program.scope).Finds .tooDeep) :
    (type.normalize program.scope).Finds fault := by
  induction owes with
  | itself member => exact (Ty.accounts program.closed_scope _).finds fault (.inl ⟨_, member, wrong⟩) whole
  | @through type body name _ used defined _ ih =>
    have accounts := type.accounts program.closed_scope
    have behind {other : Fault} (found : (body.normalize program.scope).Finds other) :
        program.scope.Blames type.obligations (fun name => type.uses name) other :=
      .inr ⟨.alias name, used, by rwa [acyclic.meaning_eq defined]⟩
    refine accounts.finds fault (behind (ih wrong (whole.imp_right fun none deep => none ?_))) whole
    exact accounts.finds .tooDeep (behind deep) (.inl rfl)

/-- The aliases of a program give a scope exactly if their literals expand. -/
theorem exists_opens_iff : (∃ scope, program.Opens scope) ↔ program.AliasesFit := by
  have asks : Expanding.Asks program.limit _ _ _ _ := program.asks_aliases
  have runs := asks.run_eq_ok_iff
  simp only [List.forall_mem_flatMap] at runs
  constructor
  · rintro ⟨_, aliases, expands, _⟩
    obtain ⟨shaped, within, _⟩ := (runs aliases).mp expands
    exact fun definition member => ⟨shaped definition member, within definition member⟩
  · intro fit
    exact ⟨_, program.unfoldedAliases,
      (runs _).mpr ⟨fun _ member => (fit _ member).1, fun _ member => (fit _ member).2, rfl⟩, rfl⟩

/-- A text expands in a program exactly if the literals in it do and those in the aliases. -/
theorem expands_iff_of_asks {result : Type} {action : Expanding result} {condition : Prop}
    {demands : List Demand} {made : result}
    (asks : Expanding.Asks program.limit action condition demands made) :
    (∃ scope plain, program.Opens scope ∧ Expanding.run program.limit action = .ok plain) ↔
      program.AliasesFit ∧ condition ∧ ∀ demand ∈ demands, demand.Within program.limit := by
  rw [← exists_opens_iff]
  constructor
  · rintro ⟨scope, plain, opens, expands⟩
    obtain ⟨shaped, within, _⟩ := (asks.run_eq_ok_iff plain).mp expands
    exact ⟨⟨scope, opens⟩, shaped, within⟩
  · rintro ⟨⟨scope, opens⟩, shaped, within⟩
    exact ⟨scope, _, opens, (asks.run_eq_ok_iff _).mpr ⟨shaped, within, rfl⟩⟩

theorem expands_type_iff {type : Ty} :
    program.Expands type ↔ program.AliasesFit ∧ type.Fits program.limit 0 :=
  expands_iff_of_asks (type.asks 0)

theorem expandsConstant_iff {constant : Constant Ty} :
    program.ExpandsConstant constant ↔ program.AliasesFit ∧ constant.Fits program.limit 0 :=
  expands_iff_of_asks (constant.asks 0)

/-- A type gives a normal form exactly if all literals expand and nothing is found in the type. -/
theorem gives_scope_iff {type : Ty} {form : Form} : program.Gives type form ↔
    program.AliasesFit ∧ type.Fits program.limit 0 ∧ type.normalize program.scope = .clean form := by
  rw [gives_iff, expands_type_iff, and_assoc]
  refine and_congr_right fun fit => and_congr_right fun _ => ?_
  constructor
  · rintro ⟨scope, opens, clean⟩
    rwa [opens.eq_scope] at clean
  · intro clean
    obtain ⟨scope, opens⟩ := exists_opens_iff.mpr fit
    exact ⟨scope, opens, opens.eq_scope ▸ clean⟩

/--
A type whose names are defined has a normal form exactly if its literals expand and it meets all that it owes: it
is well-formed within the limit, and its constants evaluate.
-/
theorem Sound.exists_gives_iff (sound : program.Sound) {type : Ty}
    (defined : program.Defines fun name => type.uses name) : (∃ form, program.Gives type form) ↔
      type.Fits program.limit 0 ∧
        ∀ obligation, program.Owes type obligation → obligation.faults program.scope = [] := by
  have fit := exists_opens_iff.mp (sound.imp fun _ => And.left)
  have none_iff : (∃ form, type.normalize program.scope = .clean form) ↔
      ∀ fault, ¬ (type.normalize program.scope).Finds fault := by
    constructor
    · rintro ⟨form, clean⟩ fault ⟨finding, member, _⟩
      rw [clean] at member
      exact List.not_mem_nil member
    · intro none
      refine ⟨_, Checked.eq_clean_iff.mpr ⟨rfl, List.eq_nil_iff_forall_not_mem.mpr fun finding member => ?_⟩⟩
      exact none finding.fault ⟨finding, member, rfl⟩
  simp only [gives_scope_iff, exists_and_left, fit, true_and, none_iff]
  refine and_congr_right fun _ => ⟨fun none obligation owes => ?_, fun met fault found => ?_⟩
  · rw [List.eq_nil_iff_forall_not_mem]
    exact fun fault wrong => none fault (sound.acyclic.finds_of_owes owes wrong (.inr (none _)))
  · rcases sound.acyclic.owes_of_finds found with ⟨obligation, owes, wrong⟩ | ⟨_, undefined⟩
    · rw [met obligation owes] at wrong
      exact List.not_mem_nil wrong
    · exact undefined defined

end Program

end TypeLists
