import TypeLists.Proofs.Normalization.Reduction

/-! Every reduction ends, and it ends in the normal form: a type that is not written in normal form can take a
step, and every step makes it lighter. -/

namespace TypeLists

open Literal (Writes)

/-- The reductions that a constant takes, which are one or none. -/
def Constant.weight : Constant Ty → Nat
  | .literal _ => 0
  | _ => 1

/-- The weight of the chain of a boolean list. -/
def Constant.tokenWeight : List (Token (Constant Ty)) → Nat
  | [] => 0
  | .comma :: rest => Constant.tokenWeight rest
  | .element head :: rest => head.weight + Constant.tokenWeight rest + 1

/-- The reductions that a former with one parameter takes, which are one or none. -/
def Wrapper.weight (wrapper : Wrapper) : Nat :=
  -- Only a reference that does not live as long as the program takes one.
  if wrapper.living .static = wrapper then 0 else 1

mutual

/-- A bound on the reductions that a type takes, given one for every name. -/
def Ty.weight (cost : TypeName → Nat) : Ty → Nat
  -- A literal weighs one more than its chain, and the types in constants play no part.
  | .atom _ => 0
  | .wrap wrapper inner => inner.weight cost + wrapper.weight + 1
  | .cons head tail => head.weight cost + tail.weight cost + 1
  | .combine _ left right => left.weight cost + right.weight cost + 1
  | .choice condition positive negative =>
    condition.weight cost + positive.weight cost + negative.weight cost + 1
  | .tuple members => Ty.allWeight cost members + 1
  | .function arguments result => Ty.allWeight cost arguments + result.weight cost + 1
  | .bool constant => constant.weight
  | .boolCons constant tail => constant.weight + tail.weight cost + 1
  | .list tokens => Ty.tokenWeight cost tokens + 1
  | .boolList tokens => Constant.tokenWeight tokens + 1
  | .output subject => subject.weight cost + 1
  | .select subject => subject.weight cost + 1
  | .named name => cost name

/-- The weights of some types together. -/
def Ty.allWeight (cost : TypeName → Nat) : List Ty → Nat
  | [] => 0
  | head :: rest => head.weight cost + Ty.allWeight cost rest

/-- The weight of the chain of a type list. -/
def Ty.tokenWeight (cost : TypeName → Nat) : List (Token Ty) → Nat
  | [] => 0
  | .comma :: rest => Ty.tokenWeight cost rest
  | .element head :: rest => head.weight cost + Ty.tokenWeight cost rest + 1

end

section Weight

variable {cost cost' : TypeName → Nat}

@[simp] theorem Ty.allWeight_append (before after : List Ty) :
    Ty.allWeight cost (before ++ after) = Ty.allWeight cost before + Ty.allWeight cost after := by
  induction before with
  | nil => simp [allWeight]
  | cons head rest ih => rw [List.cons_append, allWeight, allWeight, ih, Nat.add_assoc]

/-- The chain of the elements of a type list has the weight of what the list stands for. -/
theorem Ty.weight_foldr_cons (tokens : List (Token Ty)) :
    ((tokens.filterMap Token.value?).foldr Ty.cons .nil).weight cost = Ty.tokenWeight cost tokens := by
  symm
  refine Token.eq_foldr_of_skips (Ty.tokenWeight cost) (Ty.weight cost) rfl (fun _ => rfl)
    (fun _ _ _ same => ?_) tokens
  rw [tokenWeight, same, weight]

/-- The chain of the elements of a boolean list has the weight of what the list stands for. -/
theorem Constant.weight_foldr_boolCons (tokens : List (Token (Constant Ty))) :
    ((tokens.filterMap Token.value?).foldr Ty.boolCons .boolNil).weight cost =
      Constant.tokenWeight tokens := by
  symm
  refine Token.eq_foldr_of_skips Constant.tokenWeight (Ty.weight cost) rfl (fun _ => rfl)
    (fun _ _ _ same => ?_) tokens
  rw [tokenWeight, same, Ty.weight]

/-- What stands in the place of a former adds its own weight to the weight of the former. -/
theorem Ty.Frame.weight_plug (cost : TypeName → Nat) (frame : Ty.Frame) :
    ∃ rest, ∀ type : Ty, (frame.plug type).weight cost = type.weight cost + rest := by
  -- The rest is the weight of the other parts, and one for the former.
  cases frame with
  | inWrap wrapper => exact ⟨wrapper.weight + 1, fun type => by simp only [plug, weight]; omega⟩
  | inHead tail => exact ⟨tail.weight cost + 1, fun type => by simp only [plug, weight]; omega⟩
  | inTail head => exact ⟨head.weight cost + 1, fun type => by simp only [plug, weight]; omega⟩
  | inLeft combinator right =>
    exact ⟨right.weight cost + 1, fun type => by simp only [plug, weight]; omega⟩
  | inRight combinator left =>
    exact ⟨left.weight cost + 1, fun type => by simp only [plug, weight]; omega⟩
  | inCondition positive negative =>
    exact ⟨positive.weight cost + negative.weight cost + 1, fun type => by
      simp only [plug, weight]; omega⟩
  | inPositive condition negative =>
    exact ⟨condition.weight cost + negative.weight cost + 1, fun type => by
      simp only [plug, weight]; omega⟩
  | inNegative condition positive =>
    exact ⟨condition.weight cost + positive.weight cost + 1, fun type => by
      simp only [plug, weight]; omega⟩
  | inMember before after =>
    exact ⟨allWeight cost before + allWeight cost after + 1, fun type => by
      simp only [plug, weight, allWeight_append, allWeight]; omega⟩
  | inArgument before after result =>
    exact ⟨allWeight cost before + allWeight cost after + result.weight cost + 1, fun type => by
      simp only [plug, weight, allWeight_append, allWeight]; omega⟩
  | inResult arguments =>
    exact ⟨allWeight cost arguments + 1, fun type => by simp only [plug, weight]; omega⟩
  | inBoolTail constant =>
    exact ⟨constant.weight + 1, fun type => by simp only [plug, weight]; omega⟩
  | inOutput => exact ⟨1, fun type => by simp only [plug, weight]⟩
  | inSelect => exact ⟨1, fun type => by simp only [plug, weight]⟩

mutual

/-- The weight of a type depends on the names in it alone. -/
theorem Ty.weight_congr : ∀ (type : Ty),
    (∀ name, type.Contains (.named name) → cost name = cost' name) →
      type.weight cost = type.weight cost'
  -- Only names are weighed by their cost, and those in constants are not weighed at all.
  | .atom _, _ | .bool _, _ | .boolList _, _ => rfl
  | .named name, same => same name (.itself _)
  | .wrap wrapper inner, same => by
    rw [Ty.weight, Ty.weight,
      inner.weight_congr fun name inside => same name (.within (by simp [Ty.parts]) inside)]
  | .cons head tail, same => by
    rw [Ty.weight, Ty.weight,
      head.weight_congr fun name inside => same name (.within (by simp [Ty.parts]) inside),
      tail.weight_congr fun name inside => same name (.within (by simp [Ty.parts]) inside)]
  | .combine combinator left right, same => by
    rw [Ty.weight, Ty.weight,
      left.weight_congr fun name inside => same name (.within (by simp [Ty.parts]) inside),
      right.weight_congr fun name inside => same name (.within (by simp [Ty.parts]) inside)]
  | .choice condition positive negative, same => by
    rw [Ty.weight, Ty.weight,
      condition.weight_congr fun name inside => same name (.within (by simp [Ty.parts]) inside),
      positive.weight_congr fun name inside => same name (.within (by simp [Ty.parts]) inside),
      negative.weight_congr fun name inside => same name (.within (by simp [Ty.parts]) inside)]
  | .tuple members, same => by
    rw [Ty.weight, Ty.weight,
      Ty.allWeight_congr members fun name type member inside => same name (.within member inside)]
  | .function arguments result, same => by
    rw [Ty.weight, Ty.weight,
      Ty.allWeight_congr arguments fun name type member inside =>
        same name (.within (List.mem_append_left _ member) inside),
      result.weight_congr fun name inside => same name (.within (by simp [Ty.parts]) inside)]
  | .boolCons constant tail, same => by
    rw [Ty.weight, Ty.weight,
      tail.weight_congr fun name inside => same name (.within (by simp [Ty.parts]) inside)]
  | .list tokens, same => by
    rw [Ty.weight, Ty.weight,
      Ty.tokenWeight_congr tokens fun name type member inside => same name (.within member inside)]
  | .output subject, same => by
    rw [Ty.weight, Ty.weight,
      subject.weight_congr fun name inside => same name (.within (by simp [Ty.parts]) inside)]
  | .select subject, same => by
    rw [Ty.weight, Ty.weight,
      subject.weight_congr fun name inside => same name (.within (by simp [Ty.parts]) inside)]

/-- The weight of some types depends on the names in them alone. -/
theorem Ty.allWeight_congr : ∀ (types : List Ty),
    (∀ name, ∀ type ∈ types, type.Contains (.named name) → cost name = cost' name) →
      Ty.allWeight cost types = Ty.allWeight cost' types
  | [], _ => rfl
  | head :: rest, same => by
    rw [Ty.allWeight, Ty.allWeight,
      head.weight_congr fun name inside => same name head (List.mem_cons_self ..) inside,
      Ty.allWeight_congr rest fun name type member inside =>
        same name type (List.mem_cons_of_mem _ member) inside]

/-- The weight of a type list depends on the names in it alone. -/
theorem Ty.tokenWeight_congr : ∀ (tokens : List (Token Ty)),
    (∀ name, ∀ type ∈ tokens.filterMap Token.value?, type.Contains (.named name) →
      cost name = cost' name) →
      Ty.tokenWeight cost tokens = Ty.tokenWeight cost' tokens
  | [], _ => rfl
  | .comma :: rest, same => Ty.tokenWeight_congr rest same
  | .element head :: rest, same => by
    rw [Ty.tokenWeight, Ty.tokenWeight,
      head.weight_congr fun name inside => same name head (List.mem_cons_self ..) inside,
      Ty.tokenWeight_congr rest fun name type member inside =>
        same name type (List.mem_cons_of_mem _ member) inside]

end

end Weight

namespace Program

variable {program : Program} {scope : Scope}

/-- The cost of a name, with a bound on how deep aliases refer to one another. -/
def cost (program : Program) : Nat → TypeName → Nat
  -- Replacing a name by its body is one reduction, which all those of the body follow.
  | depth + 1, .alias name =>
    match program.aliases.lookup name with
    | some body => body.weight (cost program depth) + 1
    | none => 0
  | _, _ => 0

/-- An alias costs one more than its body does a level below. -/
theorem cost_alias (program : Program) (depth : Nat) {name : String} {body : Ty}
    (found : program.aliases.lookup name = some body) :
    program.cost (depth + 1) (.alias name) = body.weight (program.cost depth) + 1 := by
  rw [cost, found]

/-- A name that stands for something at some level has the same cost at all further levels. -/
theorem cost_stable (program : Program) {limit depth : Nat} {definitions : List (String × Ty)}
    (known : ∀ name body, definitions.lookup name = some body →
      ∃ written, program.aliases.lookup name = some written ∧ body = written.unfolded)
    {name : TypeName} {form : Form} (clean : Scope.aliases limit depth definitions name = .clean form)
    {further : Nat} (levels : depth ≤ further) :
    program.cost further name = program.cost depth name := by
  -- The induction is on the levels, and the names in a body have one level less.
  induction depth generalizing definitions name form further with
  | zero => exact absurd clean Scope.circular_ne_clean
  | succ depth ih =>
    obtain ⟨_, label, _, rfl⟩ := Scope.exists_alias clean
    obtain ⟨plain, found, plainClean⟩ := Scope.aliases_eq_clean_iff.mp clean
    obtain ⟨body, foundBody, rfl⟩ := known label plain found
    obtain ⟨further, rfl⟩ : ∃ last, further = last + 1 := ⟨further - 1, by omega⟩
    rw [cost_alias program further foundBody, cost_alias program depth foundBody]
    rw [Ty.normalize_unfolded] at plainClean
    congr 1
    refine body.weight_congr fun name inside => ?_
    obtain ⟨form, nameClean⟩ := inside.clean plainClean
    refine ih (fun name body found => ?_) (by simpa only [Ty.normalize] using nameClean) (by omega)
    exact known name body (Scope.lookup_filter_ne.mp found).2

/-- A name of a program costs one more than its body. -/
theorem Opens.weight_body (opens : program.Opens scope) {name : String} {body : Ty} {form : Form}
    (found : program.aliases.lookup name = some body)
    (clean : scope.meaning (.alias name) = .clean form) :
    body.weight (program.cost program.unfoldedAliases.length) <
      program.cost program.unfoldedAliases.length (.alias name) := by
  rw [opens.eq_ofAliases] at clean
  -- One level more changes nothing, since the name stands for something.
  have stable := program.cost_stable (fun name body found => by
    rw [lookup_unfoldedAliases, Option.map_eq_some_iff] at found
    obtain ⟨written, found, rfl⟩ := found
    exact ⟨written, found, rfl⟩) clean (Nat.le_succ _)
  rw [← stable, cost_alias program _ found]
  exact Nat.lt_succ_self _

/-- A contraction makes a type without findings lighter. -/
theorem Contracts.weight_lt (opens : program.Opens scope) {redex contractum : Ty}
    (contracts : program.Contracts redex contractum) {form : Form}
    (clean : redex.normalize scope = .clean form) :
    contractum.weight (program.cost program.unfoldedAliases.length) <
      redex.weight (program.cost program.unfoldedAliases.length) := by
  -- What is dropped weighs at least one, and what is kept weighs the same as before.
  cases contracts with
  | list writes =>
    rw [← writes.filterMap, Ty.weight_foldr_cons, Ty.weight]
    exact Nat.lt_succ_self _
  | boolList writes =>
    rw [← writes.filterMap, Constant.weight_foldr_boolCons, Ty.weight]
    exact Nat.lt_succ_self _
  | name found => exact opens.weight_body found clean
  | output inner =>
    simp only [Ty.weight]
    omega
  | positive positive negative =>
    simp only [Ty.weight]
    omega
  | negative positive negative =>
    simp only [Ty.weight]
    omega
  | lifetime shorter inner =>
    -- The reference weighed one for its lifetime, which it is rid of now.
    simp only [Ty.weight, Wrapper.weight, Wrapper.living_living, if_true, if_neg shorter]
    omega
  | bool computed _ =>
    -- A constant that is no boolean weighs one, and a boolean weighs nothing.
    simp only [Ty.weight, Constant.weight]
    omega
  | boolCons computed _ tail =>
    simp only [Ty.weight, Constant.weight]
    omega

/-- What stands in the place of a former is one of its parts. -/
theorem mem_parts_plug (type : Ty) (frame : Ty.Frame) : type ∈ (frame.plug type).parts := by
  cases frame <;> simp [Ty.Frame.plug, Ty.parts]

/-- Every step makes a type without findings lighter. -/
theorem Step.weight_lt (opens : program.Opens scope) {type type' : Ty} (step : program.Step type type')
    {form : Form} (clean : type.normalize scope = .clean form) :
    type'.weight (program.cost program.unfoldedAliases.length) <
      type.weight (program.cost program.unfoldedAliases.length) := by
  -- A former adds the same to the weight of its part before and after the step.
  induction step generalizing form with
  | contract contracts => exact contracts.weight_lt opens clean
  | @within type type' frame _ ih =>
    obtain ⟨inner, innerClean⟩ := Ty.clean_of_mem clean (mem_parts_plug type frame)
    obtain ⟨rest, weight⟩ := frame.weight_plug (program.cost program.unfoldedAliases.length)
    rw [weight, weight]
    exact Nat.add_lt_add_right (ih innerClean) rest

/-- A type without findings cannot be reduced forever. -/
theorem acc_step (opens : program.Opens scope) {type : Ty} {form : Form}
    (clean : type.normalize scope = .clean form) :
    Acc (fun reduced type => program.Step type reduced) type := by
  -- The induction is on the weight, which every step makes smaller.
  induction bound : type.weight (program.cost program.unfoldedAliases.length) using
    Nat.strong_induction_on generalizing type with
  | _ weight ih =>
    refine .intro type fun reduced step => ?_
    exact ih _ (bound ▸ step.weight_lt opens clean) (step.normalize opens clean) rfl

end Program

end TypeLists
