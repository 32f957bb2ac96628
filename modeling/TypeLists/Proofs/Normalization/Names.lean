import TypeLists.Proofs.Expansion.Limit
import TypeLists.Proofs.Normalization.Unfolding

/-! What names stand for: a type in which nothing is found stays as it is where further names stand for
something, so that an alias stands for what its body is normalized to in the program. -/

namespace TypeLists

section More

variable {limit : Nat} {lifetime : Lifetime} {background background' : List Fault}
  {meaning meaning' : TypeName → Checked Form}

mutual

/-- A type without findings is normalized alike where further names stand for something. -/
theorem Ty.normalize_more (more : ∀ name form, meaning name = .clean form → meaning' name = .clean form) :
    ∀ (type : Ty) {form : Form}, type.normalize ⟨limit, lifetime, meaning, background⟩ = .clean form →
      type.normalize ⟨limit, lifetime, meaning', background'⟩ = .clean form
  -- A name without a meaning would be a finding, so that only the names with one play a part.
  | .atom _, form, clean => clean
  | .wrap wrapper inner, form, clean => by
    simp only [Ty.normalize, Checked.bind_eq_clean_iff] at clean ⊢
    obtain ⟨inner', innerClean, rules⟩ := clean
    exact ⟨inner', Ty.normalize_more more inner innerClean, rules⟩
  | .cons head tail, form, clean => by
    simp only [Ty.normalize, Checked.bind_eq_clean_iff] at clean ⊢
    obtain ⟨head', headClean, tail', tailClean, rules⟩ := clean
    exact ⟨head', Ty.normalize_more more head headClean,
      tail', Ty.normalize_more more tail tailClean, rules⟩
  | .combine combinator left right, form, clean => by
    simp only [Ty.normalize, Checked.bind_eq_clean_iff] at clean ⊢
    obtain ⟨left', leftClean, right', rightClean, rules⟩ := clean
    exact ⟨left', Ty.normalize_more more left leftClean,
      right', Ty.normalize_more more right rightClean, rules⟩
  | .choice condition positive negative, form, clean => by
    simp only [Ty.normalize, Checked.bind_eq_clean_iff] at clean ⊢
    obtain ⟨condition', conditionClean, positive', positiveClean, negative', negativeClean, rules⟩ :=
      clean
    exact ⟨condition', Ty.normalize_more more condition conditionClean,
      positive', Ty.normalize_more more positive positiveClean,
      negative', Ty.normalize_more more negative negativeClean, rules⟩
  | .tuple members, form, clean => by
    simp only [Ty.normalize, Checked.bind_eq_clean_iff] at clean ⊢
    obtain ⟨members', membersClean, rules⟩ := clean
    exact ⟨members', Ty.normalizeAll_more more members membersClean, rules⟩
  | .function arguments result, form, clean => by
    simp only [Ty.normalize, Checked.bind_eq_clean_iff] at clean ⊢
    obtain ⟨arguments', argumentsClean, result', resultClean, rules⟩ := clean
    exact ⟨arguments', Ty.normalizeAll_more more arguments argumentsClean,
      result', Ty.normalize_more more result resultClean, rules⟩
  | .bool constant, form, clean => by
    simp only [Ty.normalize, Checked.bind_eq_clean_iff, Constant.settle_eq_clean_iff] at clean ⊢
    obtain ⟨value, ⟨resolved, result, constantClean, evaluates⟩, rules⟩ := clean
    exact ⟨value, ⟨resolved, result, Constant.normalize_more more constant constantClean, evaluates⟩,
      rules⟩
  | .boolCons constant tail, form, clean => by
    simp only [Ty.normalize, Checked.bind_eq_clean_iff, Constant.settle_eq_clean_iff] at clean ⊢
    obtain ⟨value, ⟨resolved, result, constantClean, evaluates⟩, tail', tailClean, rules⟩ := clean
    exact ⟨value, ⟨resolved, result, Constant.normalize_more more constant constantClean, evaluates⟩,
      tail', Ty.normalize_more more tail tailClean, rules⟩
  | .list tokens, form, clean => by
    rw [Ty.normalize] at clean ⊢
    exact Ty.normalizeTokens_more more tokens clean
  | .boolList tokens, form, clean => by
    rw [Ty.normalize] at clean ⊢
    exact Constant.normalizeTokens_more more tokens clean
  | .output subject, form, clean => by
    simp only [Ty.normalize, Checked.bind_eq_clean_iff] at clean ⊢
    obtain ⟨subject', subjectClean, projected⟩ := clean
    exact ⟨subject', Ty.normalize_more more subject subjectClean, projected⟩
  | .select subject, form, clean => by
    simp only [Ty.normalize, Checked.bind_eq_clean_iff] at clean ⊢
    obtain ⟨subject', subjectClean, projected⟩ := clean
    exact ⟨subject', Ty.normalize_more more subject subjectClean, projected⟩
  | .named name, form, clean => more name form clean

/-- Some types without findings are normalized alike where further names stand for something. -/
theorem Ty.normalizeAll_more
    (more : ∀ name form, meaning name = .clean form → meaning' name = .clean form) :
    ∀ (types : List Ty) {forms : List Form},
      Ty.normalizeAll ⟨limit, lifetime, meaning, background⟩ types = .clean forms →
        Ty.normalizeAll ⟨limit, lifetime, meaning', background'⟩ types = .clean forms
  -- Each of the types is normalized alike, and the results are put together alike.
  | [], forms, clean => clean
  | head :: rest, forms, clean => by
    simp only [Ty.normalizeAll, Checked.bind_eq_clean_iff] at clean ⊢
    obtain ⟨head', headClean, rest', restClean, same⟩ := clean
    exact ⟨head', Ty.normalize_more more head headClean,
      rest', Ty.normalizeAll_more more rest restClean, same⟩

/-- A type list without findings is normalized alike where further names stand for something. -/
theorem Ty.normalizeTokens_more
    (more : ∀ name form, meaning name = .clean form → meaning' name = .clean form) :
    ∀ (tokens : List (Token Ty)) {form : Form},
      Ty.normalizeTokens ⟨limit, lifetime, meaning, background⟩ tokens = .clean form →
        Ty.normalizeTokens ⟨limit, lifetime, meaning', background'⟩ tokens = .clean form
  -- The rules of a chain are about the normal forms of its elements, which stay the same.
  | [], form, clean => clean
  | .comma :: rest, form, clean => by
    rw [Ty.normalizeTokens] at clean ⊢
    exact Ty.normalizeTokens_more more rest clean
  | .element head :: rest, form, clean => by
    simp only [Ty.normalizeTokens, Checked.bind_eq_clean_iff] at clean ⊢
    obtain ⟨head', headClean, tail, tailClean, rules⟩ := clean
    exact ⟨head', Ty.normalize_more more head headClean,
      tail, Ty.normalizeTokens_more more rest tailClean, rules⟩

/-- A constant without findings is normalized alike where further names stand for something. -/
theorem Constant.normalize_more
    (more : ∀ name form, meaning name = .clean form → meaning' name = .clean form) :
    ∀ (constant : Constant Ty) {resolved : Constant Form},
      constant.normalize ⟨limit, lifetime, meaning, background⟩ = .clean resolved →
        constant.normalize ⟨limit, lifetime, meaning', background'⟩ = .clean resolved
  -- Rules for mentions and signs look at the resolved parts only, and these are the same.
  | .literal _, resolved, clean | .panic _, resolved, clean => clean
  | .not operand, resolved, clean => by
    simp only [Constant.normalize, Checked.bind_eq_clean_iff] at clean ⊢
    obtain ⟨operand', operandClean, same⟩ := clean
    exact ⟨operand', Constant.normalize_more more operand operandClean, same⟩
  | .connect connective left right, resolved, clean => by
    simp only [Constant.normalize, Checked.bind_eq_clean_iff] at clean ⊢
    obtain ⟨left', leftClean, right', rightClean, same⟩ := clean
    exact ⟨left', Constant.normalize_more more left leftClean,
      right', Constant.normalize_more more right rightClean, same⟩
  | .choose condition positive negative, resolved, clean => by
    simp only [Constant.normalize, Checked.bind_eq_clean_iff] at clean ⊢
    obtain ⟨condition', conditionClean, positive', positiveClean, negative', negativeClean, same⟩ :=
      clean
    exact ⟨condition', Constant.normalize_more more condition conditionClean,
      positive', Constant.normalize_more more positive positiveClean,
      negative', Constant.normalize_more more negative negativeClean, same⟩
  | .compare comparison kind left right, resolved, clean => by
    simp only [Constant.normalize, Checked.bind_eq_clean_iff] at clean ⊢
    obtain ⟨left', leftClean, right', rightClean, signs⟩ := clean
    exact ⟨left', Arith.normalize_more more left leftClean,
      right', Arith.normalize_more more right rightClean, signs⟩
  | .mention how subject, resolved, clean => by
    simp only [Constant.normalize, Checked.bind_eq_clean_iff] at clean ⊢
    obtain ⟨subject', subjectClean, rules⟩ := clean
    exact ⟨subject', Ty.normalize_more more subject subjectClean, rules⟩

/-- An integer expression without findings is normalized alike where further names stand for something. -/
theorem Arith.normalize_more
    (more : ∀ name form, meaning name = .clean form → meaning' name = .clean form) :
    ∀ (number : Arith Ty) {resolved : Arith Form},
      number.normalize ⟨limit, lifetime, meaning, background⟩ = .clean resolved →
        number.normalize ⟨limit, lifetime, meaning', background'⟩ = .clean resolved
  -- A measured list is a type, and everything else in the expression is free of names.
  | .literal _ _, resolved, clean | .least, resolved, clean | .greatest, resolved, clean => clean
  | .negate operand, resolved, clean => by
    simp only [Arith.normalize, Checked.bind_eq_clean_iff] at clean ⊢
    obtain ⟨operand', operandClean, same⟩ := clean
    exact ⟨operand', Arith.normalize_more more operand operandClean, same⟩
  | .apply operation left right, resolved, clean => by
    simp only [Arith.normalize, Checked.bind_eq_clean_iff] at clean ⊢
    obtain ⟨left', leftClean, right', rightClean, same⟩ := clean
    exact ⟨left', Arith.normalize_more more left leftClean,
      right', Arith.normalize_more more right rightClean, same⟩
  | .length kind list, resolved, clean => by
    simp only [Arith.normalize, Checked.bind_eq_clean_iff] at clean ⊢
    obtain ⟨list', listClean, rules⟩ := clean
    exact ⟨list', Ty.normalize_more more list listClean, rules⟩

/-- A boolean list without findings is normalized alike where further names stand for something. -/
theorem Constant.normalizeTokens_more
    (more : ∀ name form, meaning name = .clean form → meaning' name = .clean form) :
    ∀ (tokens : List (Token (Constant Ty))) {form : Form},
      Constant.normalizeTokens ⟨limit, lifetime, meaning, background⟩ tokens = .clean form →
        Constant.normalizeTokens ⟨limit, lifetime, meaning', background'⟩ tokens = .clean form
  | [], form, clean => clean
  | .comma :: rest, form, clean => by
    rw [Constant.normalizeTokens] at clean ⊢
    exact Constant.normalizeTokens_more more rest clean
  | .element head :: rest, form, clean => by
    -- A constant is evaluated when it has been normalized, and names are out of the way by then.
    simp only [Constant.normalizeTokens, Checked.bind_eq_clean_iff,
      Constant.settle_eq_clean_iff] at clean ⊢
    obtain ⟨value, ⟨resolved, result, headClean, evaluates⟩, tail, tailClean, rules⟩ := clean
    exact ⟨value, ⟨resolved, result, Constant.normalize_more more head headClean, evaluates⟩,
      tail, Constant.normalizeTokens_more more rest tailClean, rules⟩

end

end More

namespace Scope

variable {limit : Nat}

/-- An alias stands for something only if its body is normalized where it is out of scope itself. -/
theorem aliases_eq_clean_iff {depth : Nat} {definitions : List (String × Ty)} {name : String}
    {form : Form} :
    aliases limit (depth + 1) definitions (.alias name) = .clean form ↔
      ∃ body, definitions.lookup name = some body ∧ body.normalize
        ⟨limit, .static, aliases limit depth (definitions.filter fun definition => definition.1 ≠ name),
          []⟩ = .clean form := by
  -- A name without a definition is a finding, as is a name that leads back to itself.
  unfold aliases
  cases definitions.lookup name with
  | none => simp [circular_ne_clean]
  | some body => simp

/-- Only aliases stand for something. -/
theorem exists_alias {depth : Nat} {definitions : List (String × Ty)} {name : TypeName} {form : Form}
    (clean : aliases limit depth definitions name = .clean form) :
    ∃ last label, depth = last + 1 ∧ name = .alias label := by
  -- Without a level left there are no names, and parameters belong to functions.
  cases depth with
  | zero => exact absurd clean circular_ne_clean
  | succ depth =>
    rcases name with label | param
    · exact ⟨depth, label, rfl, rfl⟩
    · exact absurd clean circular_ne_clean

/-- Where one alias is left out, the others are looked up as before. -/
theorem lookup_filter_ne {definitions : List (String × Ty)} {name label : String} {body : Ty} :
    (definitions.filter fun definition => definition.1 ≠ label).lookup name = some body ↔
      name ≠ label ∧ definitions.lookup name = some body := by
  -- The induction is on the definitions: the first one is found, is left out, or is passed over.
  induction definitions with
  | nil => simp
  | cons definition rest ih =>
    obtain ⟨first, other⟩ := definition
    simp only [List.filter_cons, List.lookup_cons]
    by_cases found : name = first
    · subst found
      by_cases dropped : name = label <;> simp_all
    · have missed : (name == first) = false := beq_false_of_ne found
      by_cases dropped : first = label
      · subst dropped
        simpa [missed, found] using ih
      · simpa [List.lookup_cons, missed, dropped] using ih

/-- An alias that stands for something stands for the same among further aliases. -/
theorem aliases_more {depth depth' : Nat} {definitions definitions' : List (String × Ty)}
    (levels : depth ≤ depth')
    (more : ∀ name body, definitions.lookup name = some body → definitions'.lookup name = some body)
    {name : TypeName} {form : Form} (clean : aliases limit depth definitions name = .clean form) :
    aliases limit depth' definitions' name = .clean form := by
  -- The induction is on the levels: the body of an alias has one level less, on both sides.
  induction depth generalizing depth' definitions definitions' name form with
  | zero => exact absurd clean circular_ne_clean
  | succ depth ih =>
    obtain ⟨_, label, _, rfl⟩ := exists_alias clean
    obtain ⟨body, found, bodyClean⟩ := aliases_eq_clean_iff.mp clean
    obtain ⟨depth', rfl⟩ : ∃ last, depth' = last + 1 := ⟨depth' - 1, by omega⟩
    refine aliases_eq_clean_iff.mpr ⟨body, more label body found, ?_⟩
    -- The body stays as it is, because the aliases that it can name are among the further ones.
    refine Ty.normalize_more (fun name form inner => ih (by omega) ?_ inner) body bodyClean
    intro name body found
    obtain ⟨different, found⟩ := lookup_filter_ne.mp found
    exact lookup_filter_ne.mpr ⟨different, more name body found⟩

end Scope

namespace Program

variable {program : Program} {scope : Scope} {form : Form}

/-- The aliases of a program without their literals are looked up as they are written. -/
theorem lookup_unfoldedAliases (program : Program) (name : String) :
    program.unfoldedAliases.lookup name = (program.aliases.lookup name).map Ty.unfolded := by
  unfold unfoldedAliases
  induction program.aliases with
  | nil => rfl
  | cons definition rest ih =>
    rw [List.map_cons, List.lookup_cons, List.lookup_cons, ih]
    cases name == definition.1 <;> rfl

/-- The scope of a program is that of its aliases without their literals. -/
theorem Opens.eq_ofAliases (opens : program.Opens scope) :
    scope = Scope.ofAliases program.limit program.unfoldedAliases := by
  obtain ⟨aliases, expands, rfl⟩ := opens
  obtain ⟨_, _, rfl⟩ := (program.asks_aliases.run_eq_ok_iff aliases).mp expands
  rfl

/-- References in a program live as long as it. -/
theorem Opens.lifetime_eq (opens : program.Opens scope) : scope.lifetime = .static := by
  rw [opens.eq_ofAliases]
  rfl

/-- The names of a program that stand for something stand for well-formed forms without holes. -/
theorem Opens.wellFormed_names (opens : program.Opens scope) : scope.WellFormed fun _ => False := by
  obtain ⟨aliases, _, rfl⟩ := opens
  exact fun name form inner => Scope.wellFormed_aliases inner

/-- An alias of a program stands for what its body is normalized to in that program. -/
theorem Opens.exists_body (opens : program.Opens scope) {name : TypeName}
    (clean : scope.meaning name = .clean form) :
    ∃ label body, name = .alias label ∧ program.aliases.lookup label = some body ∧
      body.normalize scope = .clean form := by
  -- The body is read where its alias is out of scope, and no more stands for something there.
  rw [opens.eq_ofAliases] at clean ⊢
  obtain ⟨depth, label, levels, rfl⟩ := Scope.exists_alias clean
  simp only [Scope.ofAliases] at clean
  rw [levels] at clean
  obtain ⟨plain, found, plainClean⟩ := Scope.aliases_eq_clean_iff.mp clean
  rw [lookup_unfoldedAliases, Option.map_eq_some_iff] at found
  obtain ⟨body, found, rfl⟩ := found
  rw [Ty.normalize_unfolded] at plainClean
  refine ⟨label, body, rfl, found, Ty.normalize_more (fun name form inner => ?_) body plainClean⟩
  exact Scope.aliases_more (by omega) (fun name body found => (Scope.lookup_filter_ne.mp found).2) inner

end Program

end TypeLists
