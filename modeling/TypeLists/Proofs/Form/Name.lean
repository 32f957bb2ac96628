import TypeLists.Form.Name
import TypeLists.Proofs.Form.Written

/-! Printed names can be read back: a name tells where it ends and which form it was printed for, so that
different types never have the same name. -/

namespace TypeLists

namespace Form

/-- The formers of forms, as far as they can be told by the first characters of a name. -/
inductive Head where
  | leaf (leaf : Atom)
  | wrap (wrapper : Wrapper)
  | cons
  | combine (combinator : Combinator)
  | choice
  | tuple
  | function
  | bool
  | boolCons
  | hole
  deriving DecidableEq

end Form

/-- The former of one parameter by whose opening a name is told, before anything of the parameter is read. -/
def Wrapper.shape : Wrapper → Wrapper
  -- Both references open alike, and so do slices and arrays.
  | ref _ | refMut _ => ref .static
  | slice | array _ => slice
  | other => other

namespace Form

/-- The first characters of all names that are printed for a former. -/
def Head.opening : Head → String
  | leaf (.broken _) => "q::Broken<"
  | leaf other => other.name
  | wrap wrapper => wrapper.opening
  | cons => "tmppy::type_list::Cons<"
  | combine combinator => combinator.opening
  | choice => "q::If<"
  | tuple => "("
  | function => "fn("
  | bool => "tmppy::eager::Bool<"
  | boolCons => "tmppy::bool_list::BoolCons<"
  | hole => "_"

/-- The formers that names are told by. -/
def Head.all : List Head :=
  -- Only what names do not tell apart by their first characters is left out.
  ([.eight, .sixteen, .thirtyTwo, .sixtyFour, .oneTwentyEight, .pointer].flatMap fun width =>
    [leaf (.primitive (.integer ⟨false, width⟩)), leaf (.primitive (.integer ⟨true, width⟩))]) ++
  [leaf (.primitive .float32), leaf (.primitive .float64), leaf (.primitive .bool),
    leaf (.primitive .char), leaf (.primitive .str), leaf .nil, leaf .boolNil, leaf .notEvaluable,
    leaf (.dynamic .debug), leaf (.dynamic .any), leaf (.dynamic .send), leaf (.dynamic .display),
    leaf (.broken 0), wrap (.ref .static), wrap .ptr, wrap .ptrMut, wrap .slice, wrap .phantom,
    wrap .cell, wrap .option, wrap .boolGuard, wrap .typeGuard, wrap .not, wrap .force, wrap .thunk,
    cons, combine .or, combine .and, combine .shorter, choice, tuple, function, bool, boolCons, hole]

/-- No name of one former starts like a name of another. -/
theorem Head.eq_of_prefix : ∀ head ∈ Head.all, ∀ other ∈ Head.all,
    head.opening.toList <+: other.opening.toList → head = other := by
  decide +kernel

/-- Names start with none of the characters that come behind a name, and with no qualifier of a reference. -/
theorem Head.starts : ∀ head ∈ Head.all, head.opening.toList.head?.any (fun first =>
    first ∉ ['m', ')', '>', ']', ',', ';', ' ']) := by
  decide +kernel

end Form

/-- The type without parameters by whose opening a name is told. -/
def Atom.shape : Atom → Atom
  | broken _ => broken 0
  | other => other

namespace Form

/-- The former that the name of a form starts with. -/
def head : Form → Head
  | .atom leaf => .leaf leaf.shape
  | .wrap wrapper _ => .wrap wrapper.shape
  | .cons _ _ => .cons
  | .combine combinator _ _ => .combine combinator
  | .choice _ _ _ => .choice
  | .tuple _ => .tuple
  | .function _ _ => .function
  | .bool _ => .bool
  | .boolCons _ _ => .boolCons
  | .hole _ => .hole

/-- Every form starts with one of the formers that names are told by. -/
theorem head_mem_all (form : Form) : form.head ∈ Head.all := by
  -- Numbers and lifetimes have no part in the shapes, so that finitely many are left.
  cases form with
  | atom leaf =>
    rcases leaf with ⟨⟨⟨_ | _, _ | _⟩⟩⟩ | _ | _ | _ | ⟨_ | _⟩ | _ <;>
      simp [head, Head.all, Atom.shape]
  | wrap wrapper _ => cases wrapper <;> simp [head, Head.all, Wrapper.shape]
  | combine combinator _ _ => cases combinator <;> simp [head, Head.all]
  | _ => simp [head, Head.all]

section Names

variable (head tail left right next member result condition positive negative : Form)
  (arguments rest : List Form)

theorem name_atom (leaf : Atom) : (Form.atom leaf).name = leaf.name := rfl

theorem name_wrap (wrapper : Wrapper) (inner : Form) :
    (Form.wrap wrapper inner).name = wrapper.opening ++ inner.name ++ wrapper.closing := rfl

theorem name_cons : (Form.cons head tail).name =
    "tmppy::type_list::Cons<" ++ head.name ++ ", " ++ tail.name ++ ">" := rfl

theorem name_combine (combinator : Combinator) : (Form.combine combinator left right).name =
    combinator.opening ++ left.name ++ ", " ++ right.name ++ ">" := rfl

theorem name_choice : (Form.choice condition positive negative).name =
    "q::If<" ++ condition.name ++ ", " ++ positive.name ++ ", " ++ negative.name ++ ">" := rfl

theorem name_unit : (Form.tuple []).name = "(" ++ names [] ++ ")" := rfl

theorem name_single : (Form.tuple [member]).name = "(" ++ member.name ++ ",)" := rfl

theorem name_tuple : (Form.tuple (head :: next :: rest)).name =
    "(" ++ names (head :: next :: rest) ++ ")" := rfl

/-- A function with a result other than the empty tuple prints an arrow. -/
theorem name_function_of_ne (shown : result ≠ .tuple []) :
    (Form.function arguments result).name = "fn(" ++ names arguments ++ ") -> " ++ result.name := by
  cases result with
  | tuple members =>
    cases members with
    | nil => exact absurd rfl shown
    | cons first others => rfl
  | _ => rfl

/-- A function prints its result, unless that is the empty tuple. -/
theorem name_function : (Form.function arguments result).name =
    "fn(" ++ names arguments ++ ")" ++ if result = .tuple [] then "" else " -> " ++ result.name := by
  -- Only the empty tuple is left out, and the arrow with it.
  by_cases empty : result = .tuple []
  · subst empty
    rw [if_pos rfl, String.append_empty]
    rfl
  · have arrow : ") -> " = ")" ++ " -> " := by decide
    rw [if_neg empty, name_function_of_ne _ _ empty, arrow]
    simp only [String.append_assoc]

theorem name_bool (value : Option Bool) :
    (Form.bool value).name = "tmppy::eager::Bool<" ++ boolName value ++ ">" := rfl

theorem name_boolCons (value : Option Bool) : (Form.boolCons value tail).name =
    "tmppy::bool_list::BoolCons<" ++ boolName value ++ ", " ++ tail.name ++ ">" := rfl

theorem names_nil : names [] = "" := rfl

theorem names_single : names [member] = member.name := rfl

theorem names_cons : names (head :: next :: rest) = head.name ++ ", " ++ names (next :: rest) := rfl

end Names

/-- A text starts with its first part. -/
theorem toList_prefix_append (first rest : String) : first.toList <+: (first ++ rest).toList := by
  rw [String.toList_append]
  exact List.prefix_append _ _

/-- A former with one parameter opens as its shape does. -/
theorem opening_prefix_shape (wrapper : Wrapper) :
    wrapper.shape.opening.toList <+: wrapper.opening.toList := by
  -- The opening of an exclusive reference is that of a shared one with its qualifier behind it.
  cases wrapper with
  | refMut lifetime =>
    have qualified : "&mut " = "&" ++ "mut " := by decide
    simp only [Wrapper.shape, Wrapper.opening, qualified]
    exact toList_prefix_append _ _
  | _ =>
    simp only [Wrapper.shape, Wrapper.opening]
    exact List.prefix_rfl

/-- A name starts as its former opens. -/
theorem opening_prefix_name (form : Form) : form.head.opening.toList <+: form.name.toList := by
  -- Whatever follows, the opening is the first part of the text.
  cases form with
  | atom leaf =>
    cases leaf with
    | broken index =>
      simp only [head, Head.opening, name_atom, Atom.shape, Atom.name, String.append_assoc]
      exact toList_prefix_append _ _
    | _ =>
      simp only [head, Head.opening, name_atom, Atom.shape]
      exact List.prefix_rfl
  | wrap wrapper inner =>
    simp only [head, Head.opening, name_wrap, String.append_assoc]
    exact (opening_prefix_shape wrapper).trans (toList_prefix_append _ _)
  | cons first second =>
    simp only [head, Head.opening, name_cons, String.append_assoc]
    exact toList_prefix_append _ _
  | combine combinator left right =>
    simp only [head, Head.opening, name_combine, String.append_assoc]
    exact toList_prefix_append _ _
  | choice condition positive negative =>
    simp only [head, Head.opening, name_choice, String.append_assoc]
    exact toList_prefix_append _ _
  | tuple members =>
    rcases members with _ | ⟨member, _ | ⟨next, rest⟩⟩
    · simp only [head, Head.opening, name_unit, String.append_assoc]
      exact toList_prefix_append _ _
    · simp only [head, Head.opening, name_single, String.append_assoc]
      exact toList_prefix_append _ _
    · simp only [head, Head.opening, name_tuple, String.append_assoc]
      exact toList_prefix_append _ _
  | function arguments result =>
    simp only [head, Head.opening, name_function, String.append_assoc]
    exact toList_prefix_append _ _
  | bool value =>
    simp only [head, Head.opening, name_bool, String.append_assoc]
    exact toList_prefix_append _ _
  | boolCons value tail =>
    simp only [head, Head.opening, name_boolCons, String.append_assoc]
    exact toList_prefix_append _ _
  | hole cause =>
    simp only [head, Head.opening]
    exact List.prefix_rfl

/-- Names that start alike are those of one former. -/
theorem head_eq {form other : Form} {rest rest' : List Char}
    (same : form.name.toList ++ rest = other.name.toList ++ rest') : form.head = other.head := by
  -- One of the two openings is a prefix of the other, since both are prefixes of one text.
  have opening : form.head.opening.toList <+: other.name.toList ++ rest' :=
    same ▸ form.opening_prefix_name.trans (List.prefix_append _ _)
  have opening' := other.opening_prefix_name.trans (List.prefix_append _ rest')
  rcases List.prefix_or_prefix_of_prefix opening opening' with first | second
  · exact Head.eq_of_prefix _ form.head_mem_all _ other.head_mem_all first
  · exact (Head.eq_of_prefix _ other.head_mem_all _ form.head_mem_all second).symm

/-- A name starts with none of the characters that come behind a name. -/
theorem name_starts (form : Form) : ∃ first rest, form.name.toList = first :: rest ∧
    first ∉ ['m', ')', '>', ']', ',', ';', ' '] := by
  obtain ⟨rest, name⟩ := form.opening_prefix_name
  have starts := Head.starts _ form.head_mem_all
  -- The first character belongs to the opening, and the openings are known.
  cases opening : form.head.opening.toList with
  | nil =>
    rw [opening] at starts
    cases starts
  | cons first others =>
    rw [opening] at starts name
    exact ⟨first, others ++ rest, name.symm, by simpa using starts⟩

/-- What comes behind a name, which is no arrow. -/
def Stops (rest : List Char) : Prop := rest.head? ≠ some ' '

/-- What comes behind some names, which is a closing bracket. -/
def Ends (rest : List Char) : Prop := ∃ text ∈ [")", ">", ",)"], text.toList <+: rest

/-- A text that starts with no space is no arrow, whatever follows it. -/
theorem stops_text (text : String) (visible : text.toList.head?.any (· ≠ ' ')) (rest : List Char) :
    Stops (text.toList ++ rest) := by
  unfold Stops
  cases characters : text.toList with
  | nil =>
    rw [characters] at visible
    cases visible
  | cons first others =>
    rw [characters] at visible
    simpa using visible

/-- A closing bracket is no arrow. -/
theorem Ends.stops {rest : List Char} (ends : Ends rest) : Stops rest := by
  obtain ⟨text, closing, others, rfl⟩ := ends
  refine stops_text text ?_ others
  revert text
  decide

/-- What ends some names is no comma in front of another name. -/
theorem Ends.ne_comma {rest : List Char} (ends : Ends rest) (others : List Char) :
    rest ≠ ", ".toList ++ others := by
  obtain ⟨text, closing, last, rfl⟩ := ends
  intro same
  simp only [List.mem_cons, List.not_mem_nil, or_false] at closing
  rcases closing with rfl | rfl | rfl <;> simp at same

/-- What ends some names is no name. -/
theorem Ends.ne_names {rest : List Char} (ends : Ends rest) (form : Form) (forms : List Form)
    (others : List Char) : (names []).toList ++ rest ≠ (names (form :: forms)).toList ++ others := by
  obtain ⟨text, closing, last, rfl⟩ := ends
  obtain ⟨first, rest, starts, visible⟩ := form.name_starts
  -- Some names start as the first of them does, and a name starts with no closing bracket.
  have name : ∃ behind, (names (form :: forms)).toList = first :: behind := by
    cases forms with
    | nil => exact ⟨rest, starts⟩
    | cons next forms =>
      rw [names_cons, String.toList_append, String.toList_append, starts]
      exact ⟨_, rfl⟩
  obtain ⟨behind, name⟩ := name
  rw [name, names_nil]
  intro same
  simp only [List.mem_cons, List.not_mem_nil, or_false] at closing
  rcases closing with rfl | rfl | rfl <;> simp at same <;> simp [← same.1] at visible

/-- The form has a name of its own: nothing in it is unknown, and its references have one lifetime. -/
def Nameable (limit : Nat) (form : Form) : Prop :=
  form.WellFormed (fun _ => False) limit ∧ form.Lives .static

/-- The parts of a form with a name of its own have names of their own. -/
theorem Nameable.part {limit : Nat} {whole part : Form} (nameable : whole.Nameable limit)
    (member : part ∈ whole.parts) : part.Nameable limit :=
  ⟨nameable.1.part member, nameable.2.part member⟩

/-- A name that starts like that of the form is the same name, and is followed by the same. -/
def Readable (limit : Nat) (form : Form) : Prop :=
  ∀ {other : Form} {rest rest' : List Char}, other.Nameable limit → Stops rest → Stops rest' →
    form.name.toList ++ rest = other.name.toList ++ rest' → form = other ∧ rest = rest'

section Readable

variable {limit : Nat} {form other : Form} {rest rest' : List Char}

/-- A name in front of a text is told by the text, if this does not start with a space. -/
theorem Readable.followed (readable : form.Readable limit) (nameable : other.Nameable limit)
    (text : String) (visible : text.toList.head?.any (· ≠ ' '))
    (same : form.name.toList ++ (text.toList ++ rest) = other.name.toList ++ (text.toList ++ rest')) :
    form = other ∧ rest = rest' := by
  obtain ⟨equal, others⟩ :=
    readable nameable (stops_text text visible rest) (stops_text text visible rest') same
  exact ⟨equal, List.append_cancel_left others⟩

/-- Some names and what ends them are told apart, if each of the names is. -/
theorem names_readable {forms others : List Form} (readable : ∀ form ∈ forms, form.Readable limit)
    (nameable : ∀ other ∈ others, other.Nameable limit) (ends : Ends rest) (ends' : Ends rest')
    (same : (names forms).toList ++ rest = (names others).toList ++ rest') :
    forms = others ∧ rest = rest' := by
  -- The induction is on the names: each is read up to the comma behind it, or to the end.
  induction forms generalizing others with
  | nil =>
    cases others with
    | nil => exact ⟨rfl, List.append_cancel_left same⟩
    | cons first others =>
      exact absurd same (ends.ne_names first others rest')
  | cons form forms ih =>
    obtain ⟨readableForm, readableForms⟩ := List.forall_mem_cons.mp readable
    cases others with
    | nil => exact absurd same.symm (ends'.ne_names form forms rest)
    | cons other others =>
      obtain ⟨nameableOther, nameableOthers⟩ := List.forall_mem_cons.mp nameable
      -- A comma stands behind every name but the last, so that both sides have to end together.
      rcases forms with _ | ⟨next, forms⟩ <;> rcases others with _ | ⟨next', others⟩
      · obtain ⟨rfl, behind⟩ := readableForm nameableOther ends.stops ends'.stops same
        exact ⟨rfl, behind⟩
      · rw [names_single, names_cons, String.toList_append, String.toList_append, List.append_assoc,
          List.append_assoc] at same
        have behind := (readableForm nameableOther ends.stops (stops_text ", " (by decide) _) same).2
        exact absurd behind (ends.ne_comma _)
      · rw [names_single, names_cons, String.toList_append, String.toList_append, List.append_assoc,
          List.append_assoc] at same
        have behind := (readableForm nameableOther (stops_text ", " (by decide) _) ends'.stops same).2
        exact absurd behind.symm (ends'.ne_comma _)
      · rw [names_cons, names_cons, String.toList_append, String.toList_append, String.toList_append,
          String.toList_append, List.append_assoc, List.append_assoc, List.append_assoc,
          List.append_assoc] at same
        obtain ⟨rfl, behind⟩ := readableForm.followed nameableOther ", " (by decide) same
        obtain ⟨equal, behind⟩ := ih readableForms nameableOthers behind
        exact ⟨congrArg _ equal, behind⟩

/-- Decimal digits end where another character comes. -/
theorem digits_inj {number number' : Nat} {next next' : Char} (ends : ¬ next.isDigit)
    (ends' : ¬ next'.isDigit)
    (same : Nat.toDigits 10 number ++ next :: rest = Nat.toDigits 10 number' ++ next' :: rest') :
    number = number' ∧ rest = rest' := by
  -- The digits reach as far as the text has digits, since what follows them is none.
  have digits (number : Nat) {next : Char} (ends : ¬ next.isDigit) (rest : List Char) :
      (Nat.toDigits 10 number ++ next :: rest).takeWhile Char.isDigit = Nat.toDigits 10 number := by
    rw [List.takeWhile_append_of_pos, List.takeWhile_cons_of_neg ends, List.append_nil]
    exact fun digit member => Nat.isDigit_of_mem_toDigits (by decide) (by decide) member
  have equal : Nat.toDigits 10 number = Nat.toDigits 10 number' := by
    rw [← digits number ends rest, same, digits number' ends' rest']
  have numbers : number = number' := by
    rw [← Nat.ofDigitChars_ten_toDigits (n := number), equal, Nat.ofDigitChars_ten_toDigits]
  rw [equal] at same
  exact ⟨numbers, (List.cons.inj (List.append_cancel_left same)).2⟩

/-- Types without parameters of one shape are the same, but for the number of a broken expression. -/
theorem eq_of_shape {leaf leaf' : Atom} (same : leaf.shape = leaf'.shape) :
    leaf = leaf' ∨ ∃ index index', leaf = .broken index ∧ leaf' = .broken index' := by
  cases leaf <;> cases leaf' <;> simp_all [Atom.shape]

/-- Types without parameters are told by their names. -/
theorem readable_atom (leaf : Atom) : (Form.atom leaf).Readable limit := by
  intro other rest rest' _ _ _ same
  have former := head_eq same
  cases other with
  | atom leaf' =>
    -- Without parameters, the name is the whole opening, but for the number of a broken expression.
    rcases eq_of_shape (Head.leaf.inj former) with rfl | ⟨index, index', rfl, rfl⟩
    · exact ⟨rfl, List.append_cancel_left same⟩
    · simp only [name_atom, Atom.name, String.toList_append, List.append_assoc, Nat.toString_eq_repr,
        Nat.toList_repr] at same
      obtain ⟨rfl, behind⟩ := digits_inj (by decide) (by decide) (List.append_cancel_left same)
      exact ⟨rfl, behind⟩
  | _ => cases former

/-- A node is told by its name, if its head and its tail are. -/
theorem readable_cons {first last : Form} (readable : first.Readable limit)
    (readable' : last.Readable limit) : (Form.cons first last).Readable limit := by
  intro other rest rest' nameable _ _ same
  have former := head_eq same
  cases other with
  | cons first' last' =>
    simp only [name_cons, String.toList_append, List.append_assoc] at same
    -- The head is read up to the comma, and the tail up to the bracket.
    obtain ⟨rfl, same'⟩ := readable.followed (nameable.part (by simp [parts])) ", " (by decide)
      (List.append_cancel_left same)
    obtain ⟨rfl, behind⟩ := readable'.followed (nameable.part (by simp [parts])) ">" (by decide) same'
    exact ⟨rfl, behind⟩
  | _ => cases former

/-- A combinator is told by its name, if its operands are. -/
theorem readable_combine (combinator : Combinator) {left right : Form}
    (readable : left.Readable limit) (readable' : right.Readable limit) :
    (Form.combine combinator left right).Readable limit := by
  intro other rest rest' nameable _ _ same
  have former := head_eq same
  cases other with
  | combine combinator' left' right' =>
    -- The combinators open differently, so that they are the same here.
    cases Head.combine.inj former
    simp only [name_combine, String.toList_append, List.append_assoc] at same
    obtain ⟨rfl, same'⟩ := readable.followed (nameable.part (by simp [parts])) ", " (by decide)
      (List.append_cancel_left same)
    obtain ⟨rfl, behind⟩ := readable'.followed (nameable.part (by simp [parts])) ">" (by decide) same'
    exact ⟨rfl, behind⟩
  | _ => cases former

/-- A choice is told by its name, if its condition and its branches are. -/
theorem readable_choice {condition positive negative : Form} (readable : condition.Readable limit)
    (readable' : positive.Readable limit) (readable'' : negative.Readable limit) :
    (Form.choice condition positive negative).Readable limit := by
  intro other rest rest' nameable _ _ same
  have former := head_eq same
  cases other with
  | choice condition' positive' negative' =>
    simp only [name_choice, String.toList_append, List.append_assoc] at same
    -- Two of the three parts are read up to a comma, and the last one up to the bracket.
    obtain ⟨rfl, same'⟩ := readable.followed (nameable.part (by simp [parts])) ", " (by decide)
      (List.append_cancel_left same)
    obtain ⟨rfl, same''⟩ := readable'.followed (nameable.part (by simp [parts])) ", " (by decide) same'
    obtain ⟨rfl, behind⟩ :=
      readable''.followed (nameable.part (by simp [parts])) ">" (by decide) same''
    exact ⟨rfl, behind⟩
  | _ => cases former

/-- The names of the two booleans differ in their first characters. -/
theorem boolName_inj {value value' : Bool}
    (same : (boolName (some value)).toList ++ rest = (boolName (some value')).toList ++ rest') :
    value = value' ∧ rest = rest' := by
  cases value <;> cases value'
  · exact ⟨rfl, List.append_cancel_left same⟩
  · simp [boolName] at same
  · simp [boolName] at same
  · exact ⟨rfl, List.append_cancel_left same⟩

/-- A form with a name has a boolean, if it has one. -/
theorem Nameable.bool {value : Option Bool} (nameable : (Form.bool value).Nameable limit) :
    ∃ known, value = some known := by
  cases value with
  | some known => exact ⟨known, rfl⟩
  | none => exact (nameable.1.1 .lost (by simp [holes])).elim

theorem Nameable.boolCons {value : Option Bool} {last : Form}
    (nameable : (Form.boolCons value last).Nameable limit) : ∃ known, value = some known := by
  cases value with
  | some known => exact ⟨known, rfl⟩
  | none => exact (nameable.1.1 .lost (by simp [holes])).elim

/-- The two booleans are told by their names. -/
theorem readable_bool (value : Bool) : (Form.bool (some value)).Readable limit := by
  intro other rest rest' nameable _ _ same
  have former := head_eq same
  cases other with
  | bool value' =>
    obtain ⟨value', rfl⟩ := nameable.bool
    simp only [name_bool, String.toList_append, List.append_assoc] at same
    obtain ⟨rfl, behind⟩ := boolName_inj (List.append_cancel_left same)
    exact ⟨rfl, List.append_cancel_left behind⟩
  | _ => cases former

/-- A node of a boolean list is told by its name, if its tail is. -/
theorem readable_boolCons (value : Bool) {last : Form} (readable : last.Readable limit) :
    (Form.boolCons (some value) last).Readable limit := by
  intro other rest rest' nameable _ _ same
  have former := head_eq same
  cases other with
  | boolCons value' last' =>
    -- A lost boolean would be printed too, but it is in no form with a name of its own.
    obtain ⟨value', rfl⟩ := nameable.boolCons
    simp only [name_boolCons, String.toList_append, List.append_assoc] at same
    obtain ⟨rfl, same'⟩ := boolName_inj (List.append_cancel_left same)
    obtain ⟨rfl, behind⟩ := readable.followed (nameable.part (by simp [parts])) ">" (by decide)
      (List.append_cancel_left same')
    exact ⟨rfl, behind⟩
  | _ => cases former

/-- What stands behind the members of a tuple. -/
def tupleClosing : List Form → String
  -- A tuple of one member keeps a comma.
  | [_] => ",)"
  | _ => ")"

/-- A tuple prints its members in parentheses, with a comma behind a single one. -/
theorem name_tuple_eq (members : List Form) :
    (Form.tuple members).name = "(" ++ names members ++ tupleClosing members := by
  rcases members with _ | ⟨member, _ | ⟨next, rest⟩⟩ <;> rfl

theorem ends_tupleClosing (members : List Form) (rest : List Char) :
    Ends ((tupleClosing members).toList ++ rest) := by
  unfold tupleClosing
  split
  · exact ⟨",)", by simp, List.prefix_append _ _⟩
  · exact ⟨")", by simp, List.prefix_append _ _⟩

/-- A tuple is told by its name, if its members are. -/
theorem readable_tuple {members : List Form} (readable : ∀ member ∈ members, member.Readable limit) :
    (Form.tuple members).Readable limit := by
  intro other rest rest' nameable _ _ same
  have former := head_eq same
  cases other with
  | tuple members' =>
    simp only [name_tuple_eq, String.toList_append, List.append_assoc] at same
    -- With the members, the closing text is known as well.
    obtain ⟨rfl, same'⟩ := names_readable readable (fun member inside => nameable.part inside)
      (ends_tupleClosing members rest) (ends_tupleClosing members' rest')
      (List.append_cancel_left same)
    exact ⟨rfl, List.append_cancel_left same'⟩
  | _ => cases former

/-- A function is told by its name, if its arguments and its result are. -/
theorem readable_function {arguments : List Form} {result : Form}
    (readable : ∀ argument ∈ arguments, argument.Readable limit) (readable' : result.Readable limit) :
    (Form.function arguments result).Readable limit := by
  intro other rest rest' nameable stops stops' same
  have former := head_eq same
  cases other with
  | function arguments' result' =>
    simp only [name_function, String.toList_append, List.append_assoc] at same
    obtain ⟨rfl, same'⟩ := names_readable readable
      (fun argument inside => nameable.part (List.mem_append_left _ inside))
      ⟨")", by simp, List.prefix_append _ _⟩ ⟨")", by simp, List.prefix_append _ _⟩
      (List.append_cancel_left same)
    have shown := List.append_cancel_left same'
    -- An arrow would be a part of the name, so that it stands behind both functions or behind none.
    by_cases empty : result = .tuple [] <;> by_cases empty' : result' = .tuple []
    · rw [if_pos empty, if_pos empty'] at shown
      exact ⟨by rw [empty, empty'], shown⟩
    · rw [if_pos empty, if_neg empty', String.toList_append, List.append_assoc] at shown
      exact absurd (congrArg List.head? shown) stops
    · rw [if_neg empty, if_pos empty', String.toList_append, List.append_assoc] at shown
      exact absurd (congrArg List.head? shown.symm) stops'
    · rw [if_neg empty, if_neg empty', String.toList_append, String.toList_append, List.append_assoc,
        List.append_assoc] at shown
      obtain ⟨rfl, behind⟩ := readable' (nameable.part (by simp [parts])) stops stops'
        (List.append_cancel_left shown)
      exact ⟨rfl, behind⟩
  | _ => cases former

/-- Formers of one shape open alike, unless one of them is an exclusive reference and the other a shared one. -/
theorem opening_of_shape {wrapper wrapper' : Wrapper} (same : wrapper.shape = wrapper'.shape) :
    wrapper.opening = wrapper'.opening ∨
      (wrapper.opening = "&" ∧ wrapper'.opening = "&" ++ "mut ") ∨
      (wrapper.opening = "&" ++ "mut " ∧ wrapper'.opening = "&") := by
  cases wrapper <;> cases wrapper' <;> simp_all [Wrapper.shape, Wrapper.opening]

/-- No name starts with the qualifier of an exclusive reference. -/
theorem name_ne_qualified (form : Form) (rest rest' : List Char) :
    form.name.toList ++ rest ≠ "mut ".toList ++ rest' := by
  obtain ⟨first, others, starts, visible⟩ := form.name_starts
  intro same
  rw [starts] at same
  have qualifier : first = 'm' := (List.cons.inj same).1
  simp [qualifier] at visible

/-- What stands behind the parameter of a former is no arrow, if the rest is none. -/
theorem stops_closing (wrapper : Wrapper) (stops : Stops rest) :
    Stops (wrapper.closing.toList ++ rest) := by
  cases wrapper with
  | ref lifetime | refMut lifetime | ptr | ptrMut => exact stops
  | array length =>
    simp only [Wrapper.closing, String.toList_append, List.append_assoc]
    exact stops_text "; " (by decide) _
  | _ => exact stops_text _ (by decide) rest

/-- What stands behind the parameter tells the formers apart that open alike. -/
theorem closing_inj {wrapper wrapper' : Wrapper} (lives : wrapper.living .static = wrapper)
    (lives' : wrapper'.living .static = wrapper') (shape : wrapper.shape = wrapper'.shape)
    (opening : wrapper.opening = wrapper'.opening)
    (same : wrapper.closing.toList ++ rest = wrapper'.closing.toList ++ rest') :
    wrapper = wrapper' ∧ rest = rest' := by
  cases wrapper <;> cases wrapper' <;>
    simp_all [Wrapper.shape, Wrapper.living, Wrapper.closing, Wrapper.opening]
  -- Only two arrays are left, whose lengths end at the bracket.
  have bracket : ¬ ']'.isDigit := by decide
  exact digits_inj bracket bracket same

/-- A former with one parameter is told by its name, if the parameter is and it lives long enough. -/
theorem readable_wrap {wrapper : Wrapper} {inner : Form} (lives : wrapper.living .static = wrapper)
    (readable : inner.Readable limit) : (Form.wrap wrapper inner).Readable limit := by
  intro other rest rest' nameable stops stops' same
  have former := head_eq same
  cases other with
  | wrap wrapper' inner' =>
    have shape := Head.wrap.inj former
    simp only [name_wrap, String.toList_append, List.append_assoc] at same
    -- Only references need the text behind their opening to be told apart.
    rcases opening_of_shape shape with opening | ⟨opening, opening'⟩ | ⟨opening, opening'⟩
    · rw [opening] at same
      obtain ⟨rfl, same'⟩ := readable (nameable.part (by simp [parts])) (stops_closing wrapper stops)
        (stops_closing wrapper' stops') (List.append_cancel_left same)
      obtain ⟨rfl, behind⟩ := closing_inj lives (nameable.2 _ _ (.itself _)) shape opening same'
      exact ⟨rfl, behind⟩
    · rw [opening, opening', String.toList_append, List.append_assoc] at same
      exact absurd (List.append_cancel_left same) (name_ne_qualified inner _ _)
    · rw [opening, opening', String.toList_append, List.append_assoc] at same
      exact absurd (List.append_cancel_left same).symm (name_ne_qualified inner' _ _)
  | _ => cases former

mutual

/-- Every form with a name of its own can be read back from it. -/
theorem readable_of_nameable : ∀ form : Form, form.Nameable limit → form.Readable limit
  -- The induction is on the form: each former is read by its opening, and each part up to what follows it.
  | .atom leaf, _ => readable_atom leaf
  | .wrap wrapper inner, nameable =>
    readable_wrap (nameable.2 _ _ (.itself _))
      (readable_of_nameable inner (nameable.part (by simp [parts])))
  | .cons first last, nameable =>
    readable_cons (readable_of_nameable first (nameable.part (by simp [parts])))
      (readable_of_nameable last (nameable.part (by simp [parts])))
  | .combine combinator left right, nameable =>
    readable_combine combinator (readable_of_nameable left (nameable.part (by simp [parts])))
      (readable_of_nameable right (nameable.part (by simp [parts])))
  | .choice condition positive negative, nameable =>
    readable_choice (readable_of_nameable condition (nameable.part (by simp [parts])))
      (readable_of_nameable positive (nameable.part (by simp [parts])))
      (readable_of_nameable negative (nameable.part (by simp [parts])))
  | .tuple members, nameable =>
    readable_tuple (allReadable_of_nameable members fun member inside => nameable.part inside)
  | .function arguments result, nameable =>
    readable_function
      (allReadable_of_nameable arguments fun argument inside =>
        nameable.part (List.mem_append_left _ inside))
      (readable_of_nameable result (nameable.part (by simp [parts])))
  | .bool (some value), _ => readable_bool value
  | .bool none, nameable => (nameable.1.1 .lost (by simp [holes])).elim
  | .boolCons (some value) last, nameable =>
    readable_boolCons value (readable_of_nameable last (nameable.part (by simp [parts])))
  | .boolCons none last, nameable => (nameable.1.1 .lost (by simp [holes])).elim
  | .hole cause, nameable => (nameable.1.1 cause (by simp [holes])).elim

/-- All forms with names of their own can be read back from them. -/
theorem allReadable_of_nameable : ∀ forms : List Form, (∀ form ∈ forms, form.Nameable limit) →
    ∀ form ∈ forms, form.Readable limit
  | [], _ => nofun
  | head :: rest, nameable => by
    obtain ⟨nameableHead, nameableRest⟩ := List.forall_mem_cons.mp nameable
    exact List.forall_mem_cons.mpr
      ⟨readable_of_nameable head nameableHead, allReadable_of_nameable rest nameableRest⟩

end

/-- Forms with names of their own are the same exactly if their names are. -/
theorem Nameable.name_inj (nameable : form.Nameable limit) (nameable' : other.Nameable limit) :
    form.name = other.name ↔ form = other := by
  -- Two names that are the same end at the same place, with nothing behind either.
  constructor
  · intro same
    have ends : Stops [] := nofun
    refine (readable_of_nameable form nameable nameable' ends ends ?_).1
    rw [same]
  · intro same
    rw [same]

end Readable

end Form

end TypeLists
