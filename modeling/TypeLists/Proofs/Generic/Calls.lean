import TypeLists.Proofs.Constant.Places
import TypeLists.Proofs.Expansion.Substitution
import TypeLists.Proofs.Generic.Instances

/-! Calls of generic functions: a function that is accepted by itself answers for every call what its body
answers with the types of the call in place of the parameters. -/

namespace TypeLists

namespace Constant

variable {type : Type} {reading : Reading type}

/-- Bodies that run one after the other have values exactly if each of them has one. -/
theorem mapM_run_eq_ok_iff {constants : List (Constant type)} {values : List Bool} :
    constants.mapM (run reading) = .ok values ↔
      List.Forall₂ (fun constant value => constant.run reading = .ok value) constants values := by
  induction constants generalizing values with
  | nil =>
    rw [List.forall₂_nil_left_iff]
    exact ⟨fun same => (Except.ok.inj same).symm, fun same => congrArg Except.ok same.symm⟩
  | cons head rest ih =>
    -- A later body is run only if the ones before it have values.
    rw [List.mapM_cons, List.forall₂_cons_left_iff, Failure.bind_eq_ok_iff]
    constructor
    · rintro ⟨value, runs, others⟩
      obtain ⟨values', run', made⟩ := Failure.bind_eq_ok_iff.mp others
      exact ⟨value, values', runs, ih.mp run', (Except.ok.inj made).symm⟩
    · rintro ⟨value, values', runs, others, rfl⟩
      exact ⟨value, runs, Failure.bind_eq_ok_iff.mpr ⟨values', ih.mpr others, rfl⟩⟩

/-- Bodies that are compiled together have values exactly if each of them has one as a constant item. -/
theorem asBodies_eq_ok_iff {constants : List (Constant type)} {values : List Bool} :
    asBodies reading constants = .ok values ↔
      List.Forall₂ (fun constant value => constant.asItem reading = .ok value) constants values := by
  simp only [asItem_eq_ok_iff, List.forall₂_and_left, ← mapM_run_eq_ok_iff]
  rw [asBodies, ← List.flatMap_eq_nil_iff]
  cases constants.flatMap fun constant => failures reading constant.mentions with
  | nil =>
    show Except.mapError _ _ = _ ↔ _
    cases constants.mapM (run reading) <;> simp [Except.mapError]
  | cons failure others => simp

/-- A body with a failing mention refuses all bodies that are compiled together with it. -/
theorem asBodies_of_failures {constants : List (Constant type)} {constant : Constant type}
    (member : constant ∈ constants) (fails : failures reading constant.mentions ≠ []) :
    ∃ found, asBodies reading constants = .error (.refused found) := by
  -- Failing mentions of all bodies count together, before any of them runs.
  have nonempty : (constants.flatMap fun constant => failures reading constant.mentions) ≠ [] := by
    rw [Ne, List.flatMap_eq_nil_iff]
    exact fun quiet => fails (quiet constant member)
  obtain ⟨failure, others, all⟩ := List.exists_cons_of_ne_nil nonempty
  exact ⟨_, by rw [asBodies, all]⟩

/-- The mentions of a constant without faults have none, and keep their places when they are normalized. -/
theorem alike_of_clean {scope : Scope} {constant : Constant Ty} {resolved : Constant Form}
    (clean : constant.normalize scope = .clean resolved) :
    Constant.Alike (fun how type form => (mention how type).normalize scope = .clean (.mention how form))
      constant resolved := by
  -- Every operand is normalized without faults, down to the mentions.
  induction constant generalizing resolved with
  | literal value =>
    simp only [normalize, Checked.pure_eq_clean_iff] at clean
    exact clean ▸ .literal value
  | panic index =>
    simp only [normalize, Checked.pure_eq_clean_iff] at clean
    exact clean ▸ .panic index
  | not operand ih =>
    simp only [normalize, Checked.bind_eq_clean_iff, Checked.pure_eq_clean_iff] at clean
    obtain ⟨_, inner, rfl⟩ := clean
    exact .not (ih inner)
  | connect connective left right ihLeft ihRight =>
    simp only [normalize, Checked.bind_eq_clean_iff, Checked.pure_eq_clean_iff] at clean
    obtain ⟨_, first, _, second, rfl⟩ := clean
    exact .connect connective (ihLeft first) (ihRight second)
  | choose condition positive negative ihCondition ihPositive ihNegative =>
    simp only [normalize, Checked.bind_eq_clean_iff, Checked.pure_eq_clean_iff] at clean
    obtain ⟨_, first, _, second, _, third, rfl⟩ := clean
    exact .choose (ihCondition first) (ihPositive second) (ihNegative third)
  | compare comparison kind left right =>
    simp only [normalize, Checked.bind_eq_clean_iff, Checked.pure_eq_clean_iff] at clean
    obtain ⟨_, _, _, _, _, _, rfl⟩ := clean
    exact .compare comparison kind _ _ _ _
  | mention how subject =>
    have named := clean
    simp only [normalize, Checked.bind_eq_clean_iff, Checked.pure_eq_clean_iff] at named
    obtain ⟨_, _, _, _, rfl⟩ := named
    exact .mention how clean

/-- A type that is mentioned at a place of a constant is one of the types of the constant. -/
theorem Occurs.mem_types {constant : Constant type} {place : List Nat} {how : Mention} {subject : type}
    (occurs : constant.Occurs place how subject) : subject ∈ constant.types := by
  induction occurs with
  | here how subject => exact List.mem_singleton_self _
  | @within constant operand number place how subject member _ ih =>
    -- The types of an operand are among those of the whole.
    have inside := List.mem_of_getElem? member
    cases constant <;> simp only [operands, List.mem_cons, List.not_mem_nil, or_false] at inside
    · subst inside
      exact ih
    · rcases inside with rfl | rfl <;> simp [Constant.types, ih]
    · rcases inside with rfl | rfl | rfl <;> simp [Constant.types, ih]

end Constant

/-- A body that has a value has it in a program that is not refused. -/
theorem Refusal.ofBody_map_eq_ok_iff {result result' : Type} {outcome : Except Constant.BodyFailure result}
    {make : result → result'} {value : result'} :
    (ofBody outcome).map make = .ok value ↔ ∃ made, outcome = .ok made ∧ make made = value := by
  cases outcome <;> simp [ofBody, Except.map, Except.mapError]

namespace Generic

/-- The types of a call in place of the parameters of a function. -/
def given (call : Ty × Ty) : TypeName → Ty
  | .alias name => .named (.alias name)
  | .param .expression => call.1
  | .param .type => call.2

/-- The body of a function with the types of a call in place of its parameters. -/
def filled (function : Generic) (call : Ty × Ty) : Constant Ty :=
  function.guarded.substitute (given call)

theorem types_guarded (function : Generic) : function.guarded.types = function.body.types := by
  obtain ⟨body, calls, bound, under⟩ := function
  cases under with
  | none => rfl
  | some condition => simp [guarded, Constant.types]

/-- With types whose literals follow the grammar, the literals of a body do so if they did before. -/
theorem shaped_filled {function : Generic} {call : Ty × Ty} (body : function.body.Shaped)
    (expression : call.1.Shaped) (type : call.2.Shaped) : (function.filled call).Shaped := by
  -- Within some limit, all literals expand, so that they follow the grammar.
  obtain ⟨bound, allows⟩ := Demand.exists_within (function.guarded.demands 0 ++
    (function.guarded.names 0).flatMap fun name => (given call name.1).demands name.2)
  obtain ⟨own, others⟩ := List.forall_mem_append.mp (allows bound le_rfl)
  have guarded : function.guarded.Shaped := by
    rw [Constant.Shaped, types_guarded]
    exact body
  have placed (name : TypeName) : (given call name).Shaped := by
    rcases name with label | param
    · exact Ty.shaped_named
    · cases param with
      | expression => exact expression
      | type => exact type
  exact ((function.guarded.fits_substitute_iff 0).mpr ⟨⟨guarded, own⟩, fun name member =>
    ⟨placed name.1, fun demand asked => others demand (List.mem_flatMap.mpr ⟨name, member, asked⟩)⟩⟩).1

end Generic

namespace Program

variable {program : Program} {function : Generic} {call : Ty × Ty}

/-- The normal forms of the types of a call. -/
def forms (program : Program) (call : Ty × Ty) : Form × Form :=
  ((call.1.normalize program.scope).value, (call.2.normalize program.scope).value)

/-- The function is accepted by itself: its literals expand, and all rules are met for any parameters. -/
structure Admits (program : Program) (function : Generic) : Prop where
  fits : function.body.Fits program.limit 0
  checks : (function.schema program.scope).faults = []
  /-- Parameters have no place in constants that types carry. -/
  concrete : ∀ type ∈ function.body.types, Leaf.Concrete type.leaves

/-- A call gives well-formed types to the parameters, the first of which is sized and meets the bound. -/
structure Meets (program : Program) (function : Generic) (call : Ty × Ty) : Prop where
  expression : program.Gives call.1 (program.forms call).1
  type : program.Gives call.2 (program.forms call).2
  sized : (program.forms call).1.unmet program.limit .sized = []
  implements : ∀ demanded, function.bound = some demanded →
    (program.forms call).1.unmet program.limit demanded.trait = []

/-- The literals of the aliases of a program in order expand. -/
theorem Sound.aliasesFit (sound : program.Sound) : program.AliasesFit := by
  obtain ⟨_, ⟨aliases, expands, _⟩, _⟩ := sound
  obtain ⟨shaped, within, _⟩ := (program.asks_aliases.run_eq_ok_iff aliases).mp expands
  exact fun definition member => ⟨shaped definition member, fun demand asked =>
    within demand (List.mem_flatMap.mpr ⟨definition, member, asked⟩)⟩

theorem Gives.fits {type : Ty} {form : Form} (gives : program.Gives type form) : type.Fits program.limit 0 := by
  obtain ⟨_, plain, _, expands, _⟩ := gives
  obtain ⟨shaped, within, _⟩ := ((type.asks 0).run_eq_ok_iff plain).mp expands
  exact ⟨shaped, within⟩

theorem Gives.normalize_scope {type : Ty} {form : Form} (gives : program.Gives type form) :
    type.normalize program.scope = .clean form := by
  obtain ⟨_, scope, opens, clean⟩ := gives_iff.mp gives
  rwa [opens.eq_scope] at clean

/-- No parameters stand in what aliases stand for. -/
theorem wellFormed_scope (program : Program) : program.scope.WellFormed fun _ => False :=
  fun _ _ named => Scope.wellFormed_aliases named

/-- The form of a type of the program holds nothing unknown. -/
theorem Gives.holes {type : Ty} {form : Form} (gives : program.Gives type form) : form.holes = [] :=
  List.eq_nil_iff_forall_not_mem.mpr
    (Ty.wellFormed_normalize not_false program.wellFormed_scope type gives.normalize_scope).1

theorem Meets.met (meets : program.Meets function call) : Bound.Met function.bound (program.forms call) := by
  have settled : (program.forms call).1.settled := by
    rw [Form.settled, meets.expression.holes]
    rfl
  exact {
    expression := meets.expression.holes
    type := meets.type.holes
    sized := ((Form.unmet_eq_nil_iff settled).mp meets.sized).2
    implements := fun demanded bound =>
      ((Form.unmet_eq_nil_iff settled).mp (meets.implements demanded bound)).2 }

/-- With the types of a call in place of the parameters, a type is read as the call reads it. -/
theorem Meets.giving_scope (meets : program.Meets function call) :
    program.scope.giving (Generic.given call) = program.scope.calling (program.forms call) := by
  unfold Scope.giving Scope.calling Scope.withParams
  congr 1
  funext name
  rcases name with label | param
  · rfl
  · cases param with
    | expression => exact meets.expression.normalize_scope
    | type => exact meets.type.normalize_scope

/-- The expression that a call of a function evaluates. -/
def instantiated (program : Program) (function : Generic) (call : Ty × Ty) : Constant Form :=
  function.instantiate program.scope (program.forms call)

/-- What is accepted by itself is in order in every call, but for the depth of proofs. -/
theorem Admits.deep_instantiated (admits : program.Admits function) (meets : program.Meets function call) :
    ((function.filled call).normalize program.scope).Deep (program.instantiated function call) ∧
      Constant.Alike (fun _ form form' => form' = form.fill (program.forms call))
        (function.schema program.scope).value (program.instantiated function call) := by
  -- The condition around the body names no types.
  have concrete : ∀ type ∈ function.guarded.types, Leaf.Concrete type.leaves := by
    rw [Generic.types_guarded]
    exact admits.concrete
  obtain ⟨filled, deep, alike⟩ := function.guarded.normalize_calling meets.met program.wellFormed_scope concrete
    (Checked.faults_eq_nil_iff.mp admits.checks)
  cases deep.value
  rw [Generic.filled, Constant.normalize_substitute, meets.giving_scope]
  exact ⟨⟨rfl, deep.findings⟩, alike⟩

/-- A body in which nothing but too deep a proof is found is refused for it. -/
theorem Sound.answer_body_of_deep (sound : program.Sound) {constant : Constant Ty} {resolved : Constant Form}
    (deep : (constant.normalize program.scope).Deep resolved)
    (found : (constant.normalize program.scope).findings ≠ []) :
    (Query.value .body constant).answer program.scope = .error .tooDeep := by
  simp only [Query.answer, Scope.conclude_eq_of_faults sound.background_scope found deep.findings resolved]
  rfl

/-- The body with the types of a call in it is too deep, or ends as the call does. -/
theorem Admits.answer_filled (admits : program.Admits function) (sound : program.Sound)
    (meets : program.Meets function call) :
    program.answer (.value .body (function.filled call)) = .error .recursionLimit ∨
      program.answer (.value .body (function.filled call)) = .error .tooDeep ∨
        program.answer (.value .body (function.filled call)) =
          (Refusal.ofBody ((program.instantiated function call).asBody Form.reading)).map Value.flag := by
  -- Literals come first, then the rules of types, and the evaluation is last.
  by_cases fits : (function.filled call).Fits program.limit 0
  · have expands : (program.expansion (.value .body (function.filled call))).error? = none :=
      expands_iff.mpr ⟨sound.aliasesFit, fits⟩
    have deep := (admits.deep_instantiated meets).1
    rw [answer_eq, expands]
    by_cases quiet : ((function.filled call).normalize program.scope).findings = []
    · -- Nothing is too deep, and the body is evaluated.
      have clean : (function.filled call).normalize program.scope =
          .clean (program.instantiated function call) := Checked.eq_clean_iff.mpr ⟨deep.value, quiet⟩
      refine .inr (.inr ?_)
      simp only [Query.answer_body_of_clean clean, sound.background_scope]
      rfl
    · -- Whatever else is found is found in the function itself, where nothing was.
      exact .inr (.inl (sound.answer_body_of_deep deep quiet))
  · -- The literals follow the grammar, so that only their depth is wrong.
    have shaped := Generic.shaped_filled admits.fits.1 meets.expression.fits.1 meets.type.fits.1
    have aliases (definition : String × Ty) (member : definition ∈ program.aliases) : definition.2.Shaped :=
      (sound.aliasesFit definition member).1
    exact .inl (answer_eq_recursionLimit ⟨aliases, shaped⟩ fun within =>
      fits ⟨shaped, fun demand asked => within demand (List.mem_append_right _ asked)⟩)

/-- The calls of a function give forms to its parameters, in which nothing is found. -/
theorem arguments_of_meets {calls : List (Ty × Ty)} (meets : ∀ call ∈ calls, program.Meets function call) :
    function.arguments program.scope calls = .clean (calls.map program.forms) := by
  -- The induction is on the calls, each of which is checked by itself.
  induction calls with
  | nil => rfl
  | cons call rest ih =>
    obtain ⟨first, others⟩ := List.forall_mem_cons.mp meets
    -- A function without a bound asks nothing of its calls but a size.
    have bounded : (function.bound.map fun bound =>
        (program.forms call).1.unmet program.limit bound.trait).getD [] = [] := by
      cases bound : function.bound with
      | none => rfl
      | some demanded => exact first.implements demanded bound
    have head : function.argumentsOf program.scope call = .clean (program.forms call) := by
      simp only [Generic.argumentsOf, Checked.bind_eq_clean_iff, Checked.note_eq_clean_iff,
        Checked.pure_eq_clean_iff]
      exact ⟨_, first.expression.normalize_scope, _, first.type.normalize_scope, (), first.sized, (), bounded,
        rfl⟩
    rw [Generic.arguments, head, ih others]
    rfl

/-- The failures that are foreseen in a function that is accepted by itself. -/
def foreseen (program : Program) (function : Generic) : List Failure :=
  ((function.schema program.scope).value.preview Form.outlook).failures

/-- What a function foresees of itself: a mention that no call has a part in, and that fails. -/
def Foresees (program : Program) (function : Generic) (failure : Failure) : Prop :=
  ∃ place how form, (function.schema program.scope).value.Occurs place how form ∧ how.isInline = false ∧
    form.closed ∧ Form.reading.outcome how form = .error failure

theorem foresees_of_mem {failure : Failure} (member : failure ∈ program.foreseen function) :
    program.Foresees function failure := by
  obtain ⟨place, how, form, occurs, _, fails⟩ := Constant.mem_preview_failures_iff.mp member
  simp only [Form.outlook] at fails
  -- The outlook of a function is on mentions that are not inline, and in which no parameter stands.
  split at fails
  · cases fails
  · rename_i known
    simp only [Bool.or_eq_true, Bool.not_eq_true', not_or, Bool.not_eq_true, Bool.not_eq_false] at known
    exact ⟨place, how, form, occurs, known.1, known.2, Option.some.inj fails⟩

/-- What a function foresees of itself fails in every call of it. -/
theorem Foresees.mem_failures {failure : Failure} (foresees : program.Foresees function failure)
    (admits : program.Admits function) (meets : program.Meets function call) :
    failure ∈ Constant.failures Form.reading (program.instantiated function call).mentions := by
  -- The mention stands in the call as well, and nothing is filled into what it names.
  obtain ⟨place, how, form, occurs, _, closed, fails⟩ := foresees
  obtain ⟨_, occurs', rfl⟩ := (admits.deep_instantiated meets).2.occurs occurs
  rw [Form.fill_of_closed closed] at occurs'
  exact Constant.mem_failures_mentions_iff.mpr ⟨place, how, form, occurs', fails⟩

/-- A function that is accepted by itself fails for what it foresees, and otherwise as its calls do. -/
theorem Admits.answer (admits : program.Admits function) (sound : program.Sound)
    (meets : ∀ call ∈ function.calls, program.Meets function call) :
    program.answer (.generic function) =
      if program.foreseen function = [] then
        (Refusal.ofBody (Constant.asBodies Form.reading
          (function.calls.map (program.instantiated function)))).map Value.flags
      else .error (.constant (Failure.report (program.foreseen function))) := by
  have fits : (Query.generic function).Fits program.limit := by
    rw [Query.Fits, Query.Shaped, Query.demands, fitting_append_iff]
    refine ⟨admits.fits, fun call member =>
      ⟨(meets call member).expression.fits.1, (meets call member).type.fits.1⟩, fun demand asked => ?_⟩
    obtain ⟨call, member, asked⟩ := List.mem_flatMap.mp asked
    rcases List.mem_append.mp asked with asked | asked
    · exact (meets call member).expression.fits.2 demand asked
    · exact (meets call member).type.fits.2 demand asked
  have expands : (program.expansion (.generic function)).error? = none :=
    expands_iff.mpr ⟨sound.aliasesFit, fits⟩
  -- What is found before the calls are evaluated is nothing but what the function foresees.
  have silent : (Checked.clean (function.calls.map program.forms)).faults = [] := rfl
  have ahead : Generic.foreseen (function.schema program.scope) [] =
      (program.foreseen function).map .failed := by
    rw [Generic.foreseen, admits.checks]
    rfl
  have instances : (function.calls.map program.forms).map (function.instantiate program.scope) =
      function.calls.map (program.instantiated function) := List.map_map
  rw [answer_eq, expands]
  simp only [Query.answer, Generic.answer, arguments_of_meets meets, sound.background_scope, admits.checks,
    silent, ahead, List.append_nil, List.nil_append]
  split_ifs with quiet
  · rw [quiet, ← instances]
    show (Refusal.ofBody (Constant.asBodies Form.reading
      ((function.calls.map program.forms).map (function.instantiate program.scope))) >>= fun result =>
        pure (Value.flags result)) = _
    cases Refusal.ofBody (Constant.asBodies Form.reading
      ((function.calls.map program.forms).map (function.instantiate program.scope))) <;> rfl
  · rw [Fault.refuse, Refusal.ofFaults?_failed quiet]
    rfl

/-- A constant in which proofs are too deep at most fails in an item only if its evaluation fails. -/
theorem Sound.fails_of_answer_item (sound : program.Sound) {constant : Constant Ty} {resolved : Constant Form}
    (deep : (constant.normalize program.scope).Deep resolved) {report : String}
    (refused : program.answer (.value .item constant) = .error (.constant report)) :
    ∃ failure, resolved.asItem Form.reading = .error failure := by
  -- A failing constant is not reported before all literals have expanded.
  rw [answer_eq] at refused
  cases expands : (program.expansion (.value .item constant)).error? with
  | some literal =>
    rw [expands] at refused
    cases literal <;> cases refused
  | none =>
    rw [expands] at refused
    by_cases quiet : (constant.normalize program.scope).findings = []
    · have clean : constant.normalize program.scope = .clean resolved :=
        Checked.eq_clean_iff.mpr ⟨deep.value, quiet⟩
      simp only [Query.answer_item_of_clean clean, sound.background_scope] at refused
      cases item : resolved.asItem Form.reading with
      | ok result =>
        rw [item] at refused
        cases refused
      | error failure => exact ⟨failure, rfl⟩
    · -- Too deep a proof is no failing constant.
      have same := Query.answer_value_of_faults (mt Finding.reported_eq_nil_iff.mp quiet)
      simp only [same, sound.answer_body_of_deep deep quiet] at refused
      cases refused

/-- A mention that fails for a call, wherever it stands in the function, fails in what the call evaluates. -/
theorem Admits.exists_failure (admits : program.Admits function) (sound : program.Sound)
    (meets : program.Meets function call) {place : List Nat} {how : Mention} {subject : Ty}
    (occurs : function.guarded.Occurs place how subject) {report : String}
    (refused : program.answer (.value .item (.mention how (subject.substitute (Generic.given call)))) =
      .error (.constant report)) :
    Constant.failures Form.reading (program.instantiated function call).mentions ≠ [] := by
  have inside := occurs.mem_types
  rw [Generic.types_guarded] at inside
  obtain ⟨form, occurs', clean⟩ :=
    (Constant.alike_of_clean (Checked.faults_eq_nil_iff.mp admits.checks)).occurs occurs
  -- The mention is in order in the call, as it is in the function.
  obtain ⟨filled, deep, alike⟩ := (Constant.mention how subject).normalize_calling meets.met
    program.wellFormed_scope (fun type member => List.mem_singleton.mp member ▸ admits.concrete _ inside) clean
  cases alike with
  | mention how same =>
    rw [same] at deep
    have read : ((Constant.mention how subject).substitute (Generic.given call)).normalize program.scope =
        (Constant.mention how subject).normalize (program.scope.calling (program.forms call)) := by
      rw [Constant.normalize_substitute, meets.giving_scope]
    obtain ⟨failure, fails⟩ := sound.fails_of_answer_item (read ▸ deep) refused
    obtain ⟨_, occurs'', rfl⟩ := (admits.deep_instantiated meets).2.occurs occurs'
    rw [Constant.asItem_mention] at fails
    exact List.ne_nil_of_mem (Constant.mem_failures_mentions_iff.mpr ⟨place, how, _, occurs'', fails⟩)

/-- How a function answers its calls, and the same body does with the types of a call written in it. -/
structure Specializes (program : Program) (function : Generic) : Prop where
  /-- The values of the calls are those of the body with their types in it, unless it is too deep with them. -/
  called : ∀ value, program.answer (.generic function) = .ok value → ∃ values, value = .flags values ∧
    List.Forall₂ (fun call result =>
      program.answer (.value .body (function.filled call)) = .error .recursionLimit ∨
        program.answer (.value .body (function.filled call)) = .error .tooDeep ∨
          program.answer (.value .body (function.filled call)) = .ok (.flag result)) function.calls values
  /-- If the body has a value with the types of each call in it, the calls have these values. -/
  filled : function.calls ≠ [] → ∀ values, List.Forall₂ (fun call result =>
      program.answer (.value .body (function.filled call)) = .ok (.flag result)) function.calls values →
    program.answer (.generic function) = .ok (.flags values)
  /-- One failing mention in one call is enough, also in a part of the body that never runs. -/
  failing : ∀ call ∈ function.calls, ∀ place how subject report, function.guarded.Occurs place how subject →
    program.answer (.value .item (.mention how (subject.substitute (Generic.given call)))) =
      .error (.constant report) →
    ∃ report, program.answer (.generic function) = .error (.constant report)
  /-- Without calls, the function fails only for what it foresees of itself. -/
  uncalled : function.calls = [] → program.answer (.generic function) =
    if program.foreseen function = [] then .ok (.flags [])
    else .error (.constant (Failure.report (program.foreseen function)))
  /-- What a function foresees are mentions that are not inline, of types without parameters. -/
  foresight : ∀ failure ∈ program.foreseen function, program.Foresees function failure

/-- A body that has a value with the types of a call in it has it in the call. -/
theorem Admits.asItem_of_filled (admits : program.Admits function) (sound : program.Sound)
    (meets : program.Meets function call) {result : Bool}
    (specialized : program.answer (.value .body (function.filled call)) = .ok (.flag result)) :
    (program.instantiated function call).asItem Form.reading = .ok result := by
  rcases admits.answer_filled sound meets with deep | deep | same
  · cases specialized.symm.trans deep
  · cases specialized.symm.trans deep
  · obtain ⟨_, evaluated, made⟩ := Refusal.ofBody_map_eq_ok_iff.mp (same.symm.trans specialized)
    cases made
    exact Constant.asBody_eq_ok_iff.mp evaluated

/-- A function foresees nothing if one call of it has a value. -/
theorem Admits.foreseen_eq_nil (admits : program.Admits function) (meets : program.Meets function call)
    {result : Bool} (item : (program.instantiated function call).asItem Form.reading = .ok result) :
    program.foreseen function = [] := by
  rw [List.eq_nil_iff_forall_not_mem]
  intro failure member
  have fails := (foresees_of_mem member).mem_failures admits meets
  rw [(Constant.asItem_eq_ok_iff.mp item).1] at fails
  cases fails

/-- The calls of a function have values exactly if nothing is foreseen and each expression has its value. -/
theorem Admits.answer_eq_ok_iff (admits : program.Admits function) (sound : program.Sound)
    (meets : ∀ call ∈ function.calls, program.Meets function call) {value : Value} :
    program.answer (.generic function) = .ok value ↔ program.foreseen function = [] ∧
      ∃ values, List.Forall₂ (fun call result =>
        (program.instantiated function call).asItem Form.reading = .ok result) function.calls values ∧
          .flags values = value := by
  rw [admits.answer sound meets]
  split_ifs with quiet
  · simp only [Refusal.ofBody_map_eq_ok_iff, Constant.asBodies_eq_ok_iff, List.forall₂_map_left_iff, quiet,
      true_and]
  · exact iff_of_false nofun fun both => quiet both.1

/-- A function that evaluates its first parameter twice, and that is called for a boolean and its negation. -/
def probing : Generic where
  body := .connect .and (.mention .eagerBool (.named (.param .expression)))
    (.mention .value (.named (.param .expression)))
  calls := [(.bool (.literal true), .atom (.primitive .str)), (.wrap .not (.bool (.literal true)), .atom .nil)]
  bound := some .boolExpr
  under := none

/-- A function with a failing constant in which its parameters have no part, and that is never called. -/
def breaking : Generic where
  body := .mention .boolGuard (.atom (.broken 3))
  calls := []
  bound := some .boolExpr
  under := none

/-- A function that names a guard over its first parameter, negated often, and called for negations. -/
def negating : Generic where
  body := .mention .eagerType (.wrap .boolGuard
    (.wrap .not (.wrap .not (.wrap .not (.wrap .not (.named (.param .expression)))))))
  calls := [(.wrap .not (.wrap .not (.wrap .not (.wrap .not (.bool (.literal true))))), .atom .nil)]
  bound := some .boolExpr
  under := none

/-- The program without aliases whose proofs may only go a few steps deep. -/
def shallow : Program := ⟨8, [], []⟩

end Program

end TypeLists
