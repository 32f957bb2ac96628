import TypeLists.Proofs.Answer
import TypeLists.Proofs.Normalization.Alike
import TypeLists.Proofs.Normalization.Faults
import TypeLists.Proofs.Report

/-! Queries with types in place of names: what a query answers depends on the names in it only as far as they
are used. -/

namespace TypeLists

/-- The generic function with a type in place of every name, in its body and in its calls. -/
def Generic.substitute (given : TypeName → Ty) (function : Generic) : Generic :=
  { function with
    body := function.body.substitute given
    calls := function.calls.map fun call => (call.1.substitute given, call.2.substitute given) }

/-- How a name is used in a generic function and in its calls. -/
def Generic.uses (name : TypeName) (function : Generic) : List (Option Mention) :=
  function.body.uses name ++ function.calls.flatMap fun call => call.1.uses name ++ call.2.uses name

/-- The condition around a body is not touched by what stands in place of its names. -/
theorem Generic.guarded_substitute (given : TypeName → Ty) (function : Generic) :
    (function.substitute given).guarded = function.guarded.substitute given := by
  obtain ⟨body, calls, bound, under⟩ := function
  cases under <;> rfl

/-- The condition around a body names nothing. -/
theorem Generic.uses_guarded (name : TypeName) (function : Generic) :
    function.guarded.uses name = function.body.uses name := by
  obtain ⟨body, calls, bound, under⟩ := function
  cases under <;> simp [guarded, Constant.uses]

namespace Query

/-- The query with a type in place of every name. -/
def substitute (given : TypeName → Ty) : Query → Query
  | .length kind subject => .length kind (subject.substitute given)
  | .name subject => .name (subject.substitute given)
  | .sameIdentity left right => .sameIdentity (left.substitute given) (right.substitute given)
  | .assertSame left right => .assertSame (left.substitute given) (right.substitute given)
  | .witness left right => .witness (left.substitute given) (right.substitute given)
  | .value place constant => .value place (constant.substitute given)
  | .implements trait subject => .implements trait (subject.substitute given)
  | .mention subject => .mention (subject.substitute given)
  | .adapts direction subject => .adapts direction (subject.substitute given)
  | .matchEmpty subject => .matchEmpty (subject.substitute given)
  | .layout subject => .layout (subject.substitute given)
  | .forge attempt => .forge attempt
  | .generic function => .generic (function.substitute given)

/-- The query with a type in its hole, which a name marks. -/
def fill (query : Query) (name : TypeName) (type : Ty) : Query :=
  query.substitute (name.replaced type)

/-- How a name is used in a query. -/
def uses (name : TypeName) : Query → List (Option Mention)
  | .length _ subject | .name subject | .implements _ subject | .mention subject
  | .adapts _ subject | .matchEmpty subject | .layout subject => subject.uses name
  | .sameIdentity left right | .assertSame left right | .witness left right =>
    left.uses name ++ right.uses name
  | .value _ constant => constant.uses name
  | .forge _ => []
  | .generic function => function.uses name

end Query

/--
A query that uses names in some ways tells of a fault by itself: the fault lies behind a name that it uses, in
the scope and in the body of every function.
-/
def Scope.Tells (scope : Scope) (given : TypeName → Ty) (uses : TypeName → List (Option Mention))
    (fault : Fault) : Prop :=
  ∃ name, uses name ≠ [] ∧ ⟨.reported, fault⟩ ∈ ((given name).normalize scope).findings ∧
    ∀ expression type,
      ⟨.reported, fault⟩ ∈ ((given name).normalize (scope.withParams expression type)).findings

namespace Scope.Tells

variable {scope : Scope} {given : TypeName → Ty} {uses uses' : TypeName → List (Option Mention)}
  {fault : Fault}

theorem append (tells : scope.Tells given (fun name => uses name ++ uses' name) fault) :
    scope.Tells given uses fault ∨ scope.Tells given uses' fault := by
  obtain ⟨name, used, found, called⟩ := tells
  rcases used_append used with first | second
  · exact .inl ⟨name, first, found, called⟩
  · exact .inr ⟨name, second, found, called⟩

theorem type {type : Ty} (tells : scope.Tells given (fun name => type.uses name) fault) :
    ⟨.reported, fault⟩ ∈ ((type.substitute given).normalize scope).findings := by
  obtain ⟨name, used, found, _⟩ := tells
  rw [Ty.normalize_substitute]
  exact Ty.mem_findings_of_used found type used

theorem constant {constant : Constant Ty}
    (tells : scope.Tells given (fun name => constant.uses name) fault) :
    ⟨.reported, fault⟩ ∈ ((constant.substitute given).normalize scope).findings := by
  obtain ⟨name, used, found, _⟩ := tells
  rw [Constant.normalize_substitute]
  exact Constant.mem_findings_of_used found constant used

/-- What a function body uses is told by the body before it is called. -/
theorem schema {function : Generic}
    (tells : scope.Tells given (fun name => function.body.uses name) fault) :
    fault ∈ ((function.substitute given).schema scope).faults := by
  obtain ⟨name, used, _, called⟩ := tells
  have guarded : function.guarded.uses name ≠ [] := by rwa [Generic.uses_guarded]
  rw [Generic.schema, Generic.guarded_substitute, Constant.normalize_substitute]
  exact Finding.mem_reported_of_mem (Constant.mem_findings_of_used (called _ _) function.guarded guarded)

/-- What the types of calls use is told by the calls. -/
theorem arguments (function : Generic) {calls : List (Ty × Ty)}
    (tells : scope.Tells given
      (fun name => calls.flatMap fun call => call.1.uses name ++ call.2.uses name) fault) :
    ⟨.reported, fault⟩ ∈ (function.arguments scope
      (calls.map fun call => (call.1.substitute given, call.2.substitute given))).findings := by
  induction calls with
  | nil =>
    obtain ⟨_, used, _⟩ := tells
    exact absurd rfl used
  | cons call rest ih =>
    simp only [List.flatMap_cons] at tells
    rw [List.map_cons, Generic.arguments]
    rcases tells.append with first | others
    · refine List.mem_append_left _ ?_
      rw [Generic.argumentsOf]
      rcases first.append with expression | type
      · exact List.mem_append_left _ expression.type
      · exact List.mem_append_right _ (List.mem_append_left _ type.type)
    · exact List.mem_append_right _ (List.mem_append_left _ (ih others))

end Scope.Tells

/--
Bodies with the same value and findings are concluded alike where the same is wrong in the background, but for
what the bodies tell by themselves.
-/
theorem Scope.conclude_congr {result : Type} {scope scope' : Scope} {checked checked' : Checked result}
    {told : Fault → Prop}
    (background : ∀ fault, ¬ told fault → (fault ∈ scope.background ↔ fault ∈ scope'.background))
    (same : checked = checked') (again : ∀ fault, told fault → ⟨.reported, fault⟩ ∈ checked.findings) :
    scope.conclude checked = scope'.conclude checked' := by
  subst same
  exact Fault.refuse_append_congr background
    (fun fault known => Finding.mem_reported_of_mem (again fault known)) _

/-- A signature with a faulty constant tells of it as soon as it is reduced. -/
theorem Signature.mem_reduction (limit : Nat) {checked : Checked Form} {fault : Fault}
    (found : ⟨.reported, fault⟩ ∈ checked.findings) :
    fault ∈ (Signature.ofChecked limit checked).reduction := by
  have constants : fault ∈ Finding.faultsAt [.reported, .evaluation] checked.findings := by
    simp only [Finding.faultsAt, List.mem_map, List.mem_filter]
    exact ⟨_, ⟨found, by simp⟩, rfl⟩
  have some : (Finding.faultsAt [.reported, .evaluation] checked.findings).isEmpty = false := by
    simpa using List.ne_nil_of_mem constants
  simpa [ofChecked, some] using constants

/-- What two scopes have in common that answer queries alike, with types given for names in each of them. -/
structure Scope.Answers (scope : Scope) (given : TypeName → Ty) (scope' : Scope)
    (given' : TypeName → Ty) (uses : TypeName → List (Option Mention)) : Prop where
  limit : scope.limit = scope'.limit
  lifetime : scope.lifetime = scope'.lifetime
  agrees : (scope.giving given).AgreesOn Eq (scope'.giving given') uses
  /-- So it is in the body of a function, whatever its parameters stand for. -/
  called : ∀ expression type, ((scope.withParams expression type).giving given).AgreesOn Eq
    ((scope'.withParams expression type).giving given') uses

namespace Scope.Answers

variable {scope scope' : Scope} {given given' : TypeName → Ty} {uses : TypeName → List (Option Mention)}

theorem respects (answers : scope.Answers given scope' given' uses) :
    (scope.giving given).Respects Eq (scope'.giving given') :=
  respects_eq answers.limit answers.lifetime

theorem called_respects (answers : scope.Answers given scope' given' uses) (expression type : Form) :
    ((scope.withParams expression type).giving given).Respects Eq
      ((scope'.withParams expression type).giving given') :=
  respects_eq answers.limit answers.lifetime

/-- What answers for all ways to use names answers for some of them. -/
theorem mono (answers : scope.Answers given scope' given' uses)
    {uses' : TypeName → List (Option Mention)} (fewer : ∀ name, ∀ use ∈ uses' name, use ∈ uses name) :
    scope.Answers given scope' given' uses' where
  limit := answers.limit
  lifetime := answers.lifetime
  agrees name use member := answers.agrees name use (fewer name use member)
  called expression type name use member :=
    answers.called expression type name use (fewer name use member)

theorem normalize {type : Ty} (answers : scope.Answers given scope' given' fun name => type.uses name) :
    (type.substitute given).normalize scope = (type.substitute given').normalize scope' := by
  rw [Ty.normalize_substitute, Ty.normalize_substitute]
  exact (type.normalize_alike answers.respects answers.agrees).eq

theorem normalize₂ {left right : Ty}
    (answers : scope.Answers given scope' given' fun name => left.uses name ++ right.uses name) :
    (left.substitute given).normalize scope = (left.substitute given').normalize scope' ∧
      (right.substitute given).normalize scope = (right.substitute given').normalize scope' :=
  ⟨(answers.mono fun _ _ member => List.mem_append_left _ member).normalize,
    (answers.mono fun _ _ member => List.mem_append_right _ member).normalize⟩

theorem constant {constant : Constant Ty}
    (answers : scope.Answers given scope' given' fun name => constant.uses name) :
    Checked.Alike Constant.Matches ((constant.substitute given).normalize scope)
      ((constant.substitute given').normalize scope') := by
  rw [Constant.normalize_substitute, Constant.normalize_substitute]
  exact constant.normalize_alike answers.respects answers.agrees

/-- A function body observes the same in every call. -/
theorem guarded (function : Generic)
    (answers : scope.Answers given scope' given' fun name => function.body.uses name)
    (expression type : Form) :
    Checked.Alike Constant.Matches
      ((function.substitute given).guarded.normalize (scope.withParams expression type))
      ((function.substitute given').guarded.normalize (scope'.withParams expression type)) := by
  have called := answers.called expression type
  rw [Generic.guarded_substitute, Generic.guarded_substitute, Constant.normalize_substitute,
    Constant.normalize_substitute]
  simp only [← Generic.uses_guarded] at called
  exact function.guarded.normalize_alike (answers.called_respects expression type) called

/-- The types of calls are read alike. -/
theorem arguments (function : Generic) {calls : List (Ty × Ty)}
    (answers : scope.Answers given scope' given'
      fun name => calls.flatMap fun call => call.1.uses name ++ call.2.uses name) :
    (function.substitute given).arguments scope
        (calls.map fun call => (call.1.substitute given, call.2.substitute given)) =
      (function.substitute given').arguments scope'
        (calls.map fun call => (call.1.substitute given', call.2.substitute given')) := by
  induction calls with
  | nil => rfl
  | cons call rest ih =>
    have both : scope.Answers given scope' given' fun name => call.1.uses name ++ call.2.uses name :=
      answers.mono fun name use member => by
        rw [List.flatMap_cons]
        exact List.mem_append_left _ member
    have others := ih (answers.mono fun name use member => by
      rw [List.flatMap_cons]
      exact List.mem_append_right _ member)
    obtain ⟨first, second⟩ := both.normalize₂
    rw [List.map_cons, List.map_cons, Generic.arguments, Generic.arguments, others]
    simp only [Generic.argumentsOf, first, second, answers.limit]
    rfl

end Scope.Answers

/-- The same is wrong in the background of two scopes, but for what uses of names tell by themselves. -/
def Scope.SameBackground (scope : Scope) (given : TypeName → Ty) (scope' : Scope)
    (uses : TypeName → List (Option Mention)) : Prop :=
  ∀ fault, ¬ scope.Tells given uses fault → (fault ∈ scope.background ↔ fault ∈ scope'.background)

/-- A generic function answers alike in two scopes if its names agree there as far as they are used. -/
theorem Generic.answer_substitute_congr {scope scope' : Scope} {given given' : TypeName → Ty}
    (function : Generic) (answers : scope.Answers given scope' given' fun name => function.uses name)
    (background : scope.SameBackground given scope' fun name => function.uses name) :
    (function.substitute given).answer scope = (function.substitute given').answer scope' := by
  have bodies := Scope.Answers.guarded function
    (answers.mono fun name use member => List.mem_append_left _ member)
  have calls : (function.substitute given).arguments scope (function.substitute given).calls =
      (function.substitute given').arguments scope' (function.substitute given').calls :=
    (answers.mono fun name use member => List.mem_append_right _ member).arguments function
  have schema := bodies (.hole (.param true function.bound)) (.hole (.param false none))
  have faulty : ((function.substitute given).schema scope).faults =
      ((function.substitute given').schema scope').faults := schema.faults
  have foreseen (faults : List Fault) :
      Generic.foreseen ((function.substitute given).schema scope) faults =
        Generic.foreseen ((function.substitute given').schema scope') faults := by
    have previews : ((function.substitute given).schema scope).value.preview Form.outlook =
        ((function.substitute given').schema scope').value.preview Form.outlook := by
      rw [← Constant.foreseen_observed, ← Constant.foreseen_observed]
      exact congrArg (Constant.preview Observation.outlook) schema.value
    rw [Generic.foreseen, Generic.foreseen, previews, faulty]
  have again (fault : Fault) (known : scope.Tells given (fun name => function.uses name) fault) :
      fault ∈ ((function.substitute given).schema scope).faults ++
        (((function.substitute given).arguments scope (function.substitute given).calls).faults ++
          Generic.foreseen ((function.substitute given).schema scope)
            ((function.substitute given).arguments scope (function.substitute given).calls).faults) := by
    rcases known.append with body | calls
    · exact List.mem_append_left _ body.schema
    · exact List.mem_append_right _
        (List.mem_append_left _ (Finding.mem_reported_of_mem (calls.arguments _)))
  have refused := Fault.refuse_append_congr background again
    ((function.substitute given).arguments scope (function.substitute given).calls).value
  -- Calls are evaluated by what their bodies observe.
  have instances (forms : List (Form × Form)) :
      Constant.asBodies Form.reading (forms.map ((function.substitute given).instantiate scope)) =
        Constant.asBodies Form.reading (forms.map ((function.substitute given').instantiate scope')) := by
    have observed : (forms.map ((function.substitute given).instantiate scope)).map Constant.observed =
        (forms.map ((function.substitute given').instantiate scope')).map Constant.observed := by
      rw [List.map_map, List.map_map]
      exact List.map_congr_left fun pair _ => (bodies pair.1 pair.2).value
    rw [← Constant.asBodies_observed, observed, Constant.asBodies_observed]
  simp only [Generic.answer, List.append_assoc, ← faulty, ← foreseen, ← calls, refused, instances]

/-- A query answers alike in two scopes if its names agree there as far as they are used. -/
theorem Query.answer_substitute_congr {scope scope' : Scope} {given given' : TypeName → Ty}
    (query : Query) (answers : scope.Answers given scope' given' fun name => query.uses name)
    (background : scope.SameBackground given scope' fun name => query.uses name)
    (adapts : ∀ direction subject, query = .adapts direction subject →
      (subject.substitute given).adapts scope direction =
        (subject.substitute given').adapts scope' direction) :
    (query.substitute given).answer scope = (query.substitute given').answer scope' := by
  -- Every query asks for some normal forms first, and these are the same in both scopes.
  have pair {left right : Ty} {fault : Fault} {next : Form → Form → Checked Value}
      (known : scope.Tells given (fun name => left.uses name ++ right.uses name) fault) :
      ⟨.reported, fault⟩ ∈ (do
        let left ← (left.substitute given).normalize scope
        let right ← (right.substitute given).normalize scope
        next left right).findings := by
    rcases known.append with first | second
    · exact List.mem_append_left _ first.type
    · exact List.mem_append_right _ (List.mem_append_left _ second.type)
  cases query with
  | length kind subject =>
    simp only [substitute, answer]
    exact Scope.conclude_congr background (by rw [answers.normalize, answers.limit])
      fun fault known => List.mem_append_left _ (Scope.Tells.type known)
  | name subject =>
    simp only [substitute, answer]
    exact Scope.conclude_congr background (by rw [answers.normalize])
      fun fault known => List.mem_append_left _ (Scope.Tells.type known)
  | sameIdentity left right =>
    obtain ⟨first, second⟩ := answers.normalize₂
    simp only [substitute, answer]
    exact Scope.conclude_congr background (by rw [first, second]) fun fault known => pair known
  | assertSame left right =>
    obtain ⟨first, second⟩ := answers.normalize₂
    simp only [substitute, answer, Ty.identify]
    exact Scope.conclude_congr background (by rw [first, second]) fun fault known => pair known
  | witness left right =>
    obtain ⟨first, second⟩ := answers.normalize₂
    simp only [substitute, answer, Ty.identify]
    exact Scope.conclude_congr background (by rw [first, second]) fun fault known => pair known
  | value place constant =>
    have alike := answers.constant
    cases place with
    | item =>
      simp only [substitute, answer]
      exact Scope.conclude_congr background (by rw [Constant.settle_congr alike])
        fun fault known => List.mem_append_left _
          (Constant.mem_findings_settle (Scope.Tells.constant known))
    | body =>
      -- The body is concluded first, and its evaluation sees what the constant observes.
      have ends : ((constant.substitute given).normalize scope).value.asBody Form.reading =
          ((constant.substitute given').normalize scope').value.asBody Form.reading := by
        rw [← Constant.asBody_observed, alike.value, Constant.asBody_observed]
      have refused : Fault.refuse (scope.background ++ ((constant.substitute given).normalize scope).faults) () =
          Fault.refuse (scope'.background ++ ((constant.substitute given').normalize scope').faults) () := by
        rw [← alike.faults]
        exact Fault.refuse_append_congr background
          (fun fault known => Finding.mem_reported_of_mem (Scope.Tells.constant known)) ()
      simp only [substitute, answer, Scope.conclude]
      refine (Fault.refuse_bind ..).trans (Eq.trans ?_ (Fault.refuse_bind ..).symm)
      rw [ends, refused]
  | implements trait subject =>
    simp only [substitute, answer]
    exact Scope.conclude_congr background (by rw [answers.normalize, answers.limit])
      fun fault known => List.mem_append_left _ (Scope.Tells.type known)
  | mention subject =>
    simp only [substitute, answer, Ty.constantFaults]
    rw [← answers.normalize]
    exact Fault.refuse_append_congr background
      (fun fault known => Finding.mem_faultsAt_reported_iff.mpr (Scope.Tells.type known)) _
  | adapts direction subject => exact adapts direction subject rfl
  | matchEmpty subject =>
    have refused := Fault.refuse_append_congr background
      (fun fault known => Signature.mem_reduction scope.limit (Scope.Tells.type known))
      (Signature.ofChecked scope.limit ((subject.substitute given).normalize scope)).form
    simp only [substitute, answer, Ty.matchEmpty, refused]
    rw [answers.normalize, answers.limit]
  | layout subject =>
    simp only [substitute, answer]
    exact Scope.conclude_congr background (by rw [answers.normalize, answers.limit])
      fun fault known => List.mem_append_left _ (Scope.Tells.type known)
  | forge attempt =>
    have silent (fault : Fault) : ¬ scope.Tells given (fun name => (Query.forge attempt).uses name) fault := by
      rintro ⟨_, used, _⟩
      exact used rfl
    have refused : Fault.refuse scope.background () = Fault.refuse scope'.background () :=
      Fault.refuse_congr (fun fault => background fault (silent fault)) _
    simp only [substitute, answer, refused]
  | generic function => exact function.answer_substitute_congr answers background

end TypeLists
