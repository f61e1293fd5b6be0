import Signet.Proofs.Grammar.Scanner
import Signet.Proofs.Name
import Signet.Text.Stretch

/-!
# Names in a text

A scanner for names reads exactly the names that are spelled in its way, as long as neither an
identifier character nor a colon follows (`Ends`). Each scanner has two lemmas: it reads such a name
in front of such a rest, and whatever it reads is such a name.
-/

namespace Signet

open Text Grammar Scanner

/-- No name goes on at the front of the text. -/
def Ends (text : List Char) : Prop := ∀ c ∈ text.head?, isIdentChar c = false ∧ c ≠ ':'

/-! ## Identifiers -/

/-- A first character of some class, then identifier characters. -/
def IsIdent (p : Char → Bool) (text : List Char) : Prop :=
  ∃ c word, text = c :: word ∧ p c = true ∧ ∀ x ∈ word, isIdentChar x = true

section Ident

variable {p : Char → Bool} {name rest text : List Char}

theorem identRun_append (all : ∀ x ∈ name, isIdentChar x = true)
    (ends : ∀ c ∈ rest.head?, isIdentChar c = false) : identRun (name ++ rest) = name :=
  takeWhile_append all ends

theorem IsIdent.read (ident : IsIdent p name) (ends : ∀ c ∈ rest.head?, isIdentChar c = false) :
    andThen (one p) (run isIdentChar) (name ++ rest) = some rest := by
  obtain ⟨c, word, rfl, first, all⟩ := ident
  simp only [andThen, one, List.cons_append, first, if_true]
  show some ((word ++ rest).dropWhile isIdentChar) = some rest
  rw [dropWhile_append all ends]

theorem exists_ident (read : andThen (one p) (run isIdentChar) text = some rest) :
    ∃ name, IsIdent p name ∧ text = name ++ rest ∧ ∀ c ∈ rest.head?, isIdentChar c = false := by
  obtain ⟨middle, first, later⟩ := Option.bind_eq_some_iff.1 read
  obtain rfl := Option.some.inj later
  cases text with
  | nil => cases first
  | cons c text =>
      simp only [one] at first
      split at first
      · rename_i holds
        obtain rfl := Option.some.inj first
        refine ⟨c :: text.takeWhile isIdentChar, ⟨c, _, rfl, holds, fun x member => ?_⟩, ?_, ?_⟩
        · exact List.all_eq_true.1 List.all_takeWhile x member
        · rw [List.cons_append, List.takeWhile_append_dropWhile]
        · exact eq_false_of_head?_dropWhile isIdentChar text
      · cases first

theorem ident_eq_none {c : Char} (other : p c = false) :
    andThen (one p) (run isIdentChar) (c :: text) = none := by
  simp [andThen, one, other]

end Ident

/-- A name that starts with a capital. -/
def IsUpper (name : String) : Prop := IsIdent Char.isUpper name.toList

/-- A name that starts with a lower-case letter or an underscore. -/
def IsLower (name : String) : Prop := IsIdent isLowerStart name.toList

/-- An underscore and a name that starts with a capital. -/
def IsInterface (name : String) : Prop :=
  ∃ word, name.toList = '_' :: word ∧ IsIdent Char.isUpper word

/-- A name that starts with a lower-case letter or an underscore and is not reserved. -/
def IsVarName (name : String) : Prop := IsLower name ∧ name ∉ reservedWords

/-- The key of a keyword parameter. -/
def IsKey (name : String) : Prop := IsLower name ∨ IsUpper name

instance (p : Char → Bool) : DecidablePred (IsIdent p)
  | [] => isFalse nofun
  | c :: word => decidable_of_iff (p c = true ∧ ∀ x ∈ word, isIdentChar x = true)
      ⟨fun spelled => ⟨c, word, rfl, spelled⟩, fun ⟨_, _, same, spelled⟩ => by
        obtain ⟨rfl, rfl⟩ := List.cons.inj same
        exact spelled⟩

instance : DecidablePred IsUpper := fun name =>
  inferInstanceAs (Decidable (IsIdent Char.isUpper name.toList))

instance : DecidablePred IsLower := fun name =>
  inferInstanceAs (Decidable (IsIdent isLowerStart name.toList))

instance : DecidablePred IsInterface := fun name =>
  decidable_of_iff (name.toList.head? = some '_' ∧ IsIdent Char.isUpper name.toList.tail) <| by
    constructor
    · rintro ⟨head, ident⟩
      obtain ⟨word, spelled⟩ := List.head?_eq_some_iff.1 head
      rw [spelled] at ident
      exact ⟨word, spelled, ident⟩
    · rintro ⟨word, spelled, ident⟩
      rw [spelled]
      exact ⟨rfl, ident⟩

instance : DecidablePred IsVarName := fun name =>
  inferInstanceAs (Decidable (IsLower name ∧ name ∉ reservedWords))

theorem Ends.ident {rest : List Char} (ends : Ends rest) :
    ∀ c ∈ rest.head?, isIdentChar c = false := fun c member => (ends c member).1

theorem Char.isUpper_iff_bounds {c : Char} :
    c.isUpper = true ↔ 65 ≤ c.val.toNat ∧ c.val.toNat ≤ 90 := by
  show decide (c.val ≥ 65 ∧ c.val ≤ 90) = true ↔ _
  rw [decide_eq_true_iff]
  rfl

theorem Char.isLower_iff_bounds {c : Char} :
    c.isLower = true ↔ 97 ≤ c.val.toNat ∧ c.val.toNat ≤ 122 := by
  show (decide (c.val ≥ 97) && decide (c.val ≤ 122)) = true ↔ _
  rw [Bool.and_eq_true, decide_eq_true_iff, decide_eq_true_iff]
  rfl

theorem Char.isIdentChar_of_isLetter {c : Char} (letter : c.isUpper = true ∨ c.isLower = true) :
    isIdentChar c = true := by
  have alpha : c.isAlpha = true := Bool.or_eq_true_iff.2 letter
  simp [isIdentChar, Char.isAlphanum, alpha]

theorem Char.isIdentChar_of_isUpper {c : Char} (upper : c.isUpper = true) :
    isIdentChar c = true :=
  Char.isIdentChar_of_isLetter (.inl upper)

theorem Char.isIdentChar_of_isLowerStart {c : Char} (lower : isLowerStart c = true) :
    isIdentChar c = true := by
  rw [isLowerStart, Bool.or_eq_true] at lower
  rcases lower with lower | bar
  · exact Char.isIdentChar_of_isLetter (.inr lower)
  · simp [isIdentChar, bar]

theorem Char.isLowerStart_of_isUpper {c : Char} (upper : c.isUpper = true) :
    isLowerStart c = false := by
  have bounds := Char.isUpper_iff_bounds.1 upper
  have low : c.isLower = false := by
    refine Bool.eq_false_iff.2 fun lower => ?_
    have above := (Char.isLower_iff_bounds.1 lower).1
    omega
  have bar : c ≠ '_' := by
    rintro rfl
    simp at bounds
  simp [isLowerStart, low, bar]

theorem Char.isUpper_of_isLowerStart {c : Char} (lower : isLowerStart c = true) :
    c.isUpper = false := by
  refine Bool.eq_false_iff.2 fun upper => ?_
  rw [Char.isLowerStart_of_isUpper upper] at lower
  cases lower

theorem IsIdent.all {p : Char → Bool} {name : List Char}
    (starts : ∀ c, p c = true → isIdentChar c = true) (ident : IsIdent p name) :
    ∀ x ∈ name, isIdentChar x = true := by
  obtain ⟨c, word, rfl, first, all⟩ := ident
  exact List.forall_mem_cons.2 ⟨starts c first, all⟩

theorem IsUpper.all {name : String} (upper : IsUpper name) :
    ∀ x ∈ name.toList, isIdentChar x = true :=
  IsIdent.all (fun _ => Char.isIdentChar_of_isUpper) upper

theorem IsLower.all {name : String} (lower : IsLower name) :
    ∀ x ∈ name.toList, isIdentChar x = true :=
  IsIdent.all (fun _ => Char.isIdentChar_of_isLowerStart) lower

theorem IsInterface.all {name : String} (interface : IsInterface name) :
    ∀ x ∈ name.toList, isIdentChar x = true := by
  obtain ⟨word, spelled, ident⟩ := interface
  rw [spelled]
  exact List.forall_mem_cons.2
    ⟨by decide, IsIdent.all (fun _ => Char.isIdentChar_of_isUpper) ident⟩

/-! ## Words -/

section Words

variable {words : List String} {name : String} {rest text : List Char}

/-- Whether a word is read depends on the identifier at the front of the text. -/
theorem wholeWord_append (all : ∀ x ∈ name.toList, isIdentChar x = true)
    (ends : ∀ c ∈ rest.head?, isIdentChar c = false) :
    wholeWord words (name.toList ++ rest) = if words.contains name then some rest else none := by
  rw [wholeWord, identRun_append all ends, dropWhile_append all ends, String.ofList_toList]

theorem wholeWord_eq_none (fresh : "" ∉ words) (ends : ∀ c ∈ text.head?, isIdentChar c = false) :
    wholeWord words text = none := by
  have : wholeWord words ("".toList ++ text) = _ := wholeWord_append (by simp) ends
  rwa [if_neg (by simpa using fresh)] at this

theorem IsVarName.read (variable_ : IsVarName name)
    (ends : ∀ c ∈ rest.head?, isIdentChar c = false) :
    varName (name.toList ++ rest) = some rest := by
  obtain ⟨lower, free⟩ := variable_
  rw [varName, wholeWord_append lower.all ends, if_neg (by simpa using free)]
  exact IsIdent.read lower ends

theorem exists_varName (read : varName text = some rest) :
    ∃ name, IsVarName name ∧ text = name.toList ++ rest ∧
      ∀ c ∈ rest.head?, isIdentChar c = false := by
  rw [varName] at read
  split at read
  · cases read
  · rename_i free
    obtain ⟨word, ident, rfl, ends⟩ := exists_ident read
    refine ⟨String.ofList word, ⟨?_, fun member => free ?_⟩, ?_, ends⟩
    · rw [IsLower, String.toList_ofList]
      exact ident
    · have all := IsIdent.all (fun _ => Char.isIdentChar_of_isLowerStart) ident
      rw [← String.toList_ofList (l := word)] at all ⊢
      rw [wholeWord_append all ends, if_pos (by simpa using member)]
      rfl
    · rw [String.toList_ofList]

/-- A key is read in front of a colon that is not doubled. -/
theorem IsKey.read (key : IsKey name) (rest : List Char) (single : rest.head? ≠ some ':') :
    keywordName (name.toList ++ ':' :: rest) = some (':' :: rest) := by
  have ends : ∀ c ∈ (':' :: rest).head?, isIdentChar c = false := by
    rintro c member
    obtain rfl := Option.some.inj member
    decide
  have ident : Scanner.orElse lowerIdent upperIdent (name.toList ++ ':' :: rest) =
      some (':' :: rest) := by
    -- A lower name is tried first.
    rcases key with lower | upper
    · have read : lowerIdent (name.toList ++ ':' :: rest) = some (':' :: rest) :=
        IsIdent.read lower ends
      rw [Scanner.orElse, read, Option.some_or]
    · have read : upperIdent (name.toList ++ ':' :: rest) = some (':' :: rest) :=
        IsIdent.read upper ends
      have other : lowerIdent (name.toList ++ ':' :: rest) = none := by
        obtain ⟨c, word, spelled, first, -⟩ := upper
        rw [spelled]
        exact ident_eq_none (Char.isLowerStart_of_isUpper first)
      rw [Scanner.orElse, read, other, Option.none_or]
  have ahead : colonAhead (':' :: rest) = true := by
    unfold colonAhead
    split
    · rename_i found
      obtain ⟨-, rfl⟩ := List.cons.inj found
      exact (single rfl).elim
    · rfl
    · rename_i none
      exact (none rest rfl).elim
  rw [keywordName, ident]
  simp [ahead]

theorem exists_keywordName (read : keywordName text = some rest) :
    ∃ name, IsKey name ∧ text = name.toList ++ rest := by
  rw [keywordName] at read
  split at read
  · rename_i middle found
    split at read
    · obtain rfl := Option.some.inj read
      rcases Option.or_eq_some_iff.1 found with found | ⟨_, found⟩
      · obtain ⟨word, ident, rfl, -⟩ := exists_ident found
        exact ⟨String.ofList word, .inl (by rwa [IsLower, String.toList_ofList]),
          by rw [String.toList_ofList]⟩
      · obtain ⟨word, ident, rfl, -⟩ := exists_ident found
        exact ⟨String.ofList word, .inr (by rwa [IsUpper, String.toList_ofList]),
          by rw [String.toList_ofList]⟩
    · cases read
  · cases read

end Words

/-! ## Qualified names -/

/-- The words that are types by themselves. -/
def typeWords : List String :=
  ["boolish", "bool", "void", "untyped", "nil", "top", "bot", "self", "instance", "class", "true",
   "false"]

/-- The name is spelled in the way of a kind. An alias has no module in front of it, for the module
would be read as a class. -/
def TypeName.Spells (name : TypeName) : NameKind → Prop
  | .ofClass => (∀ part ∈ name.scope.path, IsUpper part) ∧ IsUpper name.base
  | .ofInterface => (∀ part ∈ name.scope.path, IsUpper part) ∧ IsInterface name.base
  | .ofAlias => name.scope.path = [] ∧ IsVarName name.base ∧ ¬IsInterface name.base ∧
      (name.scope.absolute = false → name.base ∉ typeWords)

instance (name : TypeName) : DecidablePred name.Spells
  | .ofClass =>
    inferInstanceAs (Decidable ((∀ part ∈ name.scope.path, IsUpper part) ∧ IsUpper name.base))
  | .ofInterface =>
    inferInstanceAs (Decidable ((∀ part ∈ name.scope.path, IsUpper part) ∧ IsInterface name.base))
  | .ofAlias => inferInstanceAs (Decidable (_ ∧ _ ∧ _ ∧ (_ → _)))

section Qualified

variable {path : List String} {base : String} {rest text : List Char}

theorem separator_append (text : List Char) :
    separator (Namespace.separator ++ text) = some text :=
  word_eq_some_iff.2 rfl

theorem separator_eq_none {c : Char} (other : c ≠ ':') (text : List Char) :
    separator (c :: text) = none := by
  simp [separator, Scanner.word, List.isPrefixOf, other.symm]

theorem not_isIdentChar_separator (text : List Char) :
    ∀ c ∈ (Namespace.separator ++ text).head?, isIdentChar c = false := by
  rintro c member
  obtain rfl := Option.some.inj member
  decide

theorem IsUpper.ne_colon {name : String} (upper : IsUpper name) (text : List Char) :
    ∃ c rest, name.toList ++ text = c :: rest ∧ c ≠ ':' := by
  obtain ⟨c, word, spelled, first, -⟩ := upper
  refine ⟨c, word ++ text, by rw [spelled, List.cons_append], ?_⟩
  rintro rfl
  exact absurd first (by decide)

theorem IsUpper.read {name : String} (upper : IsUpper name)
    (ends : ∀ c ∈ rest.head?, isIdentChar c = false) :
    upperIdent (name.toList ++ rest) = some rest :=
  IsIdent.read upper ends

theorem exists_upperIdent (read : upperIdent text = some rest) :
    ∃ name, IsUpper name ∧ text = name.toList ++ rest ∧
      ∀ c ∈ rest.head?, isIdentChar c = false := by
  obtain ⟨word, ident, rfl, ends⟩ := exists_ident read
  exact ⟨String.ofList word, by rwa [IsUpper, String.toList_ofList],
    by rw [String.toList_ofList], ends⟩

theorem upTo_of_none {scanner : Scanner} (none : scanner text = none) (count : Nat) :
    upTo scanner count text = text := by
  cases count <;> simp only [upTo, none]

theorem component_eq_none (ends : Ends rest) : andThen separator upperIdent rest = none := by
  cases rest with
  | nil => rfl
  | cons c rest =>
      rw [andThen, separator_eq_none (ends c rfl).2]
      rfl

/-- After the first component of a class name, components are read up to the end of the name. -/
theorem upTo_separator_upperIdent (upper : ∀ part ∈ path, IsUpper part) (last : IsUpper base)
    (ends : Ends rest) {count : Nat} (enough : path.length < count) :
    upTo (andThen separator upperIdent) count
      (Namespace.separator ++ (components path ++ (base.toList ++ rest))) = rest := by
  -- One component is taken for each part of the path, and the last one is the base name.
  induction path generalizing count with
  | nil =>
      obtain ⟨count, rfl⟩ := Nat.exists_eq_add_of_lt enough
      have first : andThen separator upperIdent
          (Namespace.separator ++ (components [] ++ (base.toList ++ rest))) = some rest := by
        rw [andThen, separator_append]
        exact last.read ends.ident
      rw [List.length_nil, Nat.zero_add, upTo, first]
      exact upTo_of_none (component_eq_none ends) count
  | cons part path ih =>
      obtain ⟨here, later⟩ := List.forall_mem_cons.1 upper
      cases count with
      | zero => exact (Nat.not_lt_zero _ enough).elim
      | succ count =>
          have first : andThen separator upperIdent (Namespace.separator ++
              (components (part :: path) ++ (base.toList ++ rest))) =
                some (Namespace.separator ++ (components path ++ (base.toList ++ rest))) := by
            rw [andThen, separator_append, components_cons, List.append_assoc, List.append_assoc]
            exact here.read (not_isIdentChar_separator _)
          rw [upTo, first]
          exact ih later (Nat.lt_of_succ_lt_succ enough)

/-- Components with separators after them are read up to where no further one follows. -/
theorem upTo_upperIdent_separator (upper : ∀ part ∈ path, IsUpper part)
    (none : andThen upperIdent separator rest = none) {count : Nat}
    (enough : path.length ≤ count) :
    upTo (andThen upperIdent separator) count (components path ++ rest) = rest := by
  induction path generalizing count with
  | nil => exact upTo_of_none none count
  | cons part path ih =>
      obtain ⟨here, later⟩ := List.forall_mem_cons.1 upper
      cases count with
      | zero => exact (Nat.not_succ_le_zero _ enough).elim
      | succ count =>
          have first : andThen upperIdent separator (components (part :: path) ++ rest) =
              some (components path ++ rest) := by
            rw [components_cons, List.append_assoc, List.append_assoc, andThen,
              here.read (not_isIdentChar_separator _)]
            exact separator_append _
          rw [upTo, first]
          exact ih later (Nat.le_of_succ_le_succ enough)

theorem maybe_separator {text : List Char} (absolute : Bool)
    (other : ∀ c ∈ text.head?, c ≠ ':') :
    maybe separator ((if absolute then Namespace.separator else []) ++ text) = some text := by
  cases absolute with
  | true => rw [maybe, if_pos rfl, separator_append, Option.some_or]
  | false =>
      have none : separator text = none := by
        cases text with
        | nil => rfl
        | cons c text => exact separator_eq_none (other c rfl) text
      simp [maybe, none]

theorem components_head {base : List Char} (upper : ∀ part ∈ path, IsUpper part)
    (last : ∀ c ∈ base.head?, c ≠ ':') : ∀ c ∈ (components path ++ base).head?, c ≠ ':' := by
  cases path with
  | nil => exact last
  | cons part path =>
      intro c member
      obtain ⟨other, rest, spelled, different⟩ := (upper part List.mem_cons_self).ne_colon
        (Namespace.separator ++ (components path ++ base))
      rw [components_cons, List.append_assoc, List.append_assoc, spelled] at member
      obtain rfl := Option.some.inj member
      exact different

/-- The name of a class is read. -/
theorem className_print {name : TypeName} (spells : name.Spells .ofClass) (ends : Ends rest) :
    className (name.print ++ rest) = some rest := by
  obtain ⟨upper, last⟩ := spells
  have head : ∀ c ∈ (name.base.toList ++ rest).head?, c ≠ ':' := by
    obtain ⟨c, word, spelled, different⟩ := last.ne_colon rest
    rw [spelled]
    rintro _ ⟨⟩
    exact different
  rw [name.print_eq, List.append_assoc, List.append_assoc, className, andThen,
    maybe_separator _ (components_head upper head)]
  show (upperIdent _).bind _ = _
  -- The first component is read without a separator in front of it.
  cases path_eq : name.scope.path with
  | nil =>
      show (upperIdent (name.base.toList ++ rest)).bind _ = _
      rw [last.read ends.ident]
      exact congrArg some (upTo_of_none (component_eq_none ends) _)
  | cons part path =>
      rw [path_eq] at upper
      obtain ⟨here, later⟩ := List.forall_mem_cons.1 upper
      have long := length_components_le path
      rw [components_cons, List.append_assoc, List.append_assoc,
        here.read (not_isIdentChar_separator _)]
      refine congrArg some (upTo_separator_upperIdent later last ends ?_)
      simp only [List.length_append, Namespace.separator, List.length_cons, List.length_nil]
      omega

theorem exists_upTo_separator_upperIdent (count : Nat) (text : List Char) :
    ∃ parts : List String, (∀ part ∈ parts, IsUpper part) ∧
      text = (parts.flatMap fun part => Namespace.separator ++ part.toList) ++
        upTo (andThen separator upperIdent) count text := by
  induction count generalizing text with
  | zero => exact ⟨[], by simp, rfl⟩
  | succ count ih =>
      cases found : andThen separator upperIdent text with
      | none => exact ⟨[], by simp, by rw [upTo, found]; rfl⟩
      | some middle =>
          obtain ⟨between, front, read⟩ := Option.bind_eq_some_iff.1 found
          obtain rfl := word_eq_some_iff.1 front
          obtain ⟨part, upper, rfl, -⟩ := exists_upperIdent read
          obtain ⟨parts, all, rest⟩ := ih middle
          refine ⟨part :: parts, List.forall_mem_cons.2 ⟨upper, all⟩, ?_⟩
          rw [upTo, found, List.flatMap_cons]
          simp only [List.append_assoc]
          rw [← rest]
          rfl

/-- Components with separators before them, as a path and a base. -/
theorem exists_components (first : String) (parts : List String) :
    ∃ path base, path ++ [base] = first :: parts ∧
      first.toList ++ (parts.flatMap fun part => Namespace.separator ++ part.toList) =
        components path ++ base.toList := by
  induction parts generalizing first with
  | nil => exact ⟨[], first, rfl, by simp [components]⟩
  | cons part parts ih =>
      obtain ⟨path, base, parts_eq, text_eq⟩ := ih part
      refine ⟨first :: path, base, by rw [List.cons_append, parts_eq], ?_⟩
      simp only [List.flatMap_cons, components_cons, List.append_assoc]
      rw [text_eq]

theorem exists_maybe_separator (read : maybe separator text = some rest) :
    ∃ absolute : Bool, text = (if absolute then Namespace.separator else []) ++ rest := by
  rcases Option.or_eq_some_iff.1 read with read | ⟨_, read⟩
  · exact ⟨true, word_eq_some_iff.1 read⟩
  · exact ⟨false, Option.some.inj read⟩

/-- What is read as the name of a class is one. -/
theorem exists_className (read : className text = some rest) :
    ∃ name : TypeName, name.Spells .ofClass ∧ text = name.print ++ rest := by
  obtain ⟨middle, front, read⟩ := Option.bind_eq_some_iff.1 read
  obtain ⟨last, first, read⟩ := Option.bind_eq_some_iff.1 read
  obtain rfl := Option.some.inj read
  obtain ⟨absolute, rfl⟩ := exists_maybe_separator front
  obtain ⟨part, upper, rfl, -⟩ := exists_upperIdent first
  obtain ⟨parts, all, rest_eq⟩ := exists_upTo_separator_upperIdent last.length last
  obtain ⟨path, base, parts_eq, text_eq⟩ := exists_components part parts
  have every : ∀ other ∈ path ++ [base], IsUpper other :=
    parts_eq ▸ List.forall_mem_cons.2 ⟨upper, all⟩
  refine ⟨⟨⟨path, absolute⟩, base⟩, ⟨fun other member => every other (by simp [member]),
    every base (by simp)⟩, ?_⟩
  rw [TypeName.print_eq, List.append_assoc]
  show _ = _ ++ (components path ++ base.toList ++ _)
  rw [← text_eq, List.append_assoc, ← rest_eq]

theorem exists_upTo_upperIdent_separator (count : Nat) (text : List Char) :
    ∃ path : List String, (∀ part ∈ path, IsUpper part) ∧
      text = components path ++ upTo (andThen upperIdent separator) count text := by
  induction count generalizing text with
  | zero => exact ⟨[], by simp, rfl⟩
  | succ count ih =>
      cases found : andThen upperIdent separator text with
      | none => exact ⟨[], by simp, by rw [upTo, found]; rfl⟩
      | some middle =>
          obtain ⟨between, first, read⟩ := Option.bind_eq_some_iff.1 found
          obtain rfl := word_eq_some_iff.1 read
          obtain ⟨part, upper, rfl, -⟩ := exists_upperIdent first
          obtain ⟨path, all, rest⟩ := ih middle
          refine ⟨part :: path, List.forall_mem_cons.2 ⟨upper, all⟩, ?_⟩
          rw [upTo, found, components_cons]
          simp only [List.append_assoc]
          rw [← rest]
          rfl

theorem andThen_of_none {first second : Scanner} (refused : first text = none) :
    andThen first second text = none := by
  rw [andThen, refused]
  rfl

/-- The components in front of a name are read. -/
theorem qualifier_components (absolute : Bool) (upper : ∀ part ∈ path, IsUpper part)
    (none : andThen upperIdent separator text = none) (other : ∀ c ∈ text.head?, c ≠ ':') :
    qualifier ((if absolute then Namespace.separator else []) ++ (components path ++ text)) =
      some text := by
  rw [qualifier, andThen, maybe_separator _ (components_head upper other)]
  have long := length_components_le path
  refine congrArg some (upTo_upperIdent_separator upper none ?_)
  rw [List.length_append]
  omega

theorem exists_qualifier (read : qualifier text = some rest) :
    ∃ (absolute : Bool) (path : List String), (∀ part ∈ path, IsUpper part) ∧
      text = (if absolute then Namespace.separator else []) ++ (components path ++ rest) := by
  obtain ⟨middle, front, read⟩ := Option.bind_eq_some_iff.1 read
  obtain rfl := Option.some.inj read
  obtain ⟨absolute, rfl⟩ := exists_maybe_separator front
  obtain ⟨path, all, rest_eq⟩ := exists_upTo_upperIdent_separator middle.length middle
  exact ⟨absolute, path, all, by rw [← rest_eq]⟩

theorem interfaceIdent_append {name : String} (interface : IsInterface name)
    (ends : ∀ c ∈ rest.head?, isIdentChar c = false) :
    interfaceIdent (name.toList ++ rest) = some rest := by
  obtain ⟨word, spelled, ident⟩ := interface
  have front : '_' :: word ++ rest = ['_'] ++ (word ++ rest) := rfl
  rw [spelled, front, interfaceIdent, andThen, word_eq_some_iff.2 rfl]
  exact IsIdent.read ident ends

/-- The name of an interface is read. -/
theorem interfaceName_print {name : TypeName} (spells : name.Spells .ofInterface)
    (ends : Ends rest) : interfaceName (name.print ++ rest) = some rest := by
  obtain ⟨upper, word, spelled, ident⟩ := spells
  have none : andThen upperIdent separator (name.base.toList ++ rest) = none := by
    rw [spelled]
    exact andThen_of_none (ident_eq_none (c := '_') (by decide))
  have head : ∀ c ∈ (name.base.toList ++ rest).head?, c ≠ ':' := by
    rw [spelled]
    rintro _ ⟨⟩
    decide
  rw [name.print_eq, List.append_assoc, List.append_assoc, interfaceName, andThen,
    qualifier_components _ upper none head]
  exact interfaceIdent_append ⟨word, spelled, ident⟩ ends.ident

/-- What is read as the name of an interface is one. -/
theorem exists_interfaceName (read : interfaceName text = some rest) :
    ∃ name : TypeName, name.Spells .ofInterface ∧ text = name.print ++ rest := by
  obtain ⟨middle, front, interface⟩ := Option.bind_eq_some_iff.1 read
  obtain ⟨last, bar, capital⟩ := Option.bind_eq_some_iff.1 interface
  obtain ⟨absolute, path, upper, rfl⟩ := exists_qualifier front
  obtain rfl := word_eq_some_iff.1 bar
  obtain ⟨word, ident, rfl, -⟩ := exists_ident capital
  refine ⟨⟨⟨path, absolute⟩, String.ofList ('_' :: word)⟩,
    ⟨upper, word, String.toList_ofList, ident⟩, ?_⟩
  rw [TypeName.print_eq]
  simp

/-- The name of an alias is read. -/
theorem aliasName_print {name : TypeName} (spells : name.Spells .ofAlias) (ends : Ends rest) :
    aliasName (name.print ++ rest) = some rest := by
  obtain ⟨path_eq, base, -, -⟩ := spells
  obtain ⟨c, word, spelled, first, -⟩ := base.1
  have none : upperIdent (name.base.toList ++ rest) = none := by
    rw [spelled]
    exact ident_eq_none (Char.isUpper_of_isLowerStart first)
  have head : ∀ c ∈ (name.base.toList ++ rest).head?, c ≠ ':' := by
    rw [spelled]
    rintro _ ⟨⟩ rfl
    exact absurd first (by decide)
  rw [name.print_eq, List.append_assoc, List.append_assoc, aliasName, andThen,
    qualifier_components _ (by simp [path_eq]) (andThen_of_none none) head]
  exact base.read ends.ident

/-- What is read as the name of an alias is one, if nothing else can be read there. -/
theorem exists_aliasName (read : aliasName text = some rest) (notClass : className text = none)
    (notInterface : interfaceName text = none) (notBase : baseType text = none)
    (notBoolean : booleanLiteral text = none) :
    ∃ name : TypeName, name.Spells .ofAlias ∧ text = name.print ++ rest := by
  obtain ⟨other, qualified, rest_read⟩ := Option.bind_eq_some_iff.1 read
  obtain ⟨middle, front, many⟩ := Option.bind_eq_some_iff.1 qualified
  obtain ⟨absolute, rfl⟩ := exists_maybe_separator front
  -- a capital after the separator would have been read as a class
  have none : upperIdent middle = none := by
    rw [className, andThen, front] at notClass
    cases found : upperIdent middle with
    | none => rfl
    | some after =>
        have : andThen upperIdent (Scanner.many (andThen separator upperIdent)) middle = none :=
          notClass
        rw [andThen, found] at this
        cases this
  have stop : andThen upperIdent separator middle = Option.none := by
    rw [andThen, none]
    rfl
  obtain rfl : middle = other := by
    rw [← Option.some.inj many, upTo_of_none stop]
  obtain ⟨base, variable_, rfl, ends⟩ := exists_varName rest_read
  refine ⟨⟨⟨[], absolute⟩, base⟩, ⟨rfl, variable_, fun interface => ?_, fun relative => ?_⟩, ?_⟩
  · rw [interfaceName, andThen, qualified] at notInterface
    exact nomatch notInterface.symm.trans (interfaceIdent_append interface ends)
  · intro member
    obtain rfl : absolute = false := relative
    have all := variable_.1.all
    have either : base ∈ ["boolish", "bool", "void", "untyped", "nil", "top", "bot", "self",
        "instance", "class"] ∨ base ∈ ["true", "false"] := by
      simpa [typeWords, or_assoc] using member
    rcases either with member | member
    · have read : baseType (base.toList ++ rest) = some rest := by
        rw [baseType, wholeWord_append all ends, if_pos (by simpa using member)]
      exact nomatch notBase.symm.trans read
    · have read : booleanLiteral (base.toList ++ rest) = some rest := by
        rw [booleanLiteral, wholeWord_append all ends, if_pos (by simpa using member)]
      exact nomatch notBoolean.symm.trans read
  · rw [TypeName.print_eq, List.append_assoc]
    rfl

theorem TypeName.Spells.base_all {name : TypeName} {kind : NameKind} (spells : name.Spells kind) :
    ∀ c ∈ name.base.toList, isIdentChar c = true := by
  cases kind with
  | ofClass => exact spells.2.all
  | ofInterface => exact spells.2.all
  | ofAlias => exact spells.2.1.1.all

theorem TypeName.Spells.path_all {name : TypeName} {kind : NameKind} (spells : name.Spells kind) :
    ∀ part ∈ name.scope.path, IsUpper part := by
  cases kind with
  | ofClass | ofInterface => exact spells.1
  | ofAlias => simp [spells.1]

/-- A name consists of identifier characters and colons. -/
theorem TypeName.Spells.chars {name : TypeName} {kind : NameKind} (spells : name.Spells kind) :
    ∀ c ∈ name.print, isIdentChar c = true ∨ c = ':' := by
  have separator : ∀ c ∈ Namespace.separator, isIdentChar c = true ∨ c = ':' := by decide
  intro c member
  rw [name.print_eq, List.mem_append, List.mem_append] at member
  rcases member with member | member | member
  · split at member
    · exact separator c member
    · cases member
  · obtain ⟨part, inPath, member⟩ := List.mem_flatMap.1 member
    rcases List.mem_append.1 member with member | member
    · exact .inl ((spells.path_all part inPath).all c member)
    · exact separator c member
  · exact .inl (spells.base_all c member)

/-- A name that is spelled in the way of a kind is read back from its text. -/
theorem TypeName.Spells.ofChars_print {name : TypeName} {kind : NameKind}
    (spells : name.Spells kind) : TypeName.ofChars name.print = name := by
  have plain : ∀ {text : List Char}, (∀ x ∈ text, isIdentChar x = true) → ':' ∉ text :=
    fun all member => absurd (all ':' member) (by decide)
  have first : ∀ {path : List String}, (∀ part ∈ path, IsUpper part) → path.head? ≠ some "" := by
    intro path upper empty
    obtain ⟨c, word, spelled, -⟩ := upper "" (List.mem_of_head? empty)
    cases spelled
  cases kind with
  | ofClass =>
      obtain ⟨upper, last⟩ := spells
      exact name.ofChars_print (fun part member => plain (upper part member).all) (plain last.all)
        fun _ => first upper
  | ofInterface =>
      obtain ⟨upper, last⟩ := spells
      exact name.ofChars_print (fun part member => plain (upper part member).all) (plain last.all)
        fun _ => first upper
  | ofAlias =>
      obtain ⟨path_eq, base, -, -⟩ := spells
      exact name.ofChars_print (by simp [path_eq]) (plain base.1.all) (by simp [path_eq])

/-! ## What a name is not -/

theorem typeWords_not_name : ∀ word ∈ typeWords, ¬IsUpper word ∧ ¬IsInterface word := by
  have head : ∀ word ∈ typeWords, ∀ c ∈ word.toList.head?, c.isUpper = false ∧ c ≠ '_' := by decide
  intro word member
  constructor
  · rintro ⟨c, rest, spelled, upper, -⟩
    have := head word member
    rw [spelled] at this
    exact nomatch (this c rfl).1.symm.trans upper
  · rintro ⟨rest, spelled, -⟩
    have := head word member
    rw [spelled] at this
    exact (this '_' rfl).2 rfl

/-- A name is not read as one of the words that are types by themselves. -/
theorem TypeName.Spells.wholeWord_eq_none {name : TypeName} {kind : NameKind}
    (spells : name.Spells kind) (ends : Ends rest) {words : List String}
    (within : ∀ word ∈ words, word ∈ typeWords) :
    Scanner.wholeWord words (name.print ++ rest) = none := by
  have fresh : "" ∉ words := fun member => absurd (within "" member) (by decide)
  rw [name.print_eq, List.append_assoc, List.append_assoc]
  -- The word that the name begins with is empty, a part of the path, or the base name.
  cases absolute : name.scope.absolute with
  | true => exact Signet.wholeWord_eq_none fresh (not_isIdentChar_separator _)
  | false =>
      show Scanner.wholeWord words (components name.scope.path ++ (name.base.toList ++ rest)) = none
      cases path_eq : name.scope.path with
      | cons part path =>
          have upper := spells.path_all part (by simp [path_eq])
          rw [components_cons, List.append_assoc, List.append_assoc,
            wholeWord_append upper.all (not_isIdentChar_separator _), if_neg]
          intro member
          exact (typeWords_not_name part (within part (by simpa using member))).1 upper
      | nil =>
          rw [components_nil, List.nil_append, wholeWord_append spells.base_all ends.ident, if_neg]
          intro member
          have word := within name.base (by simpa using member)
          cases kind with
          | ofClass => exact (typeWords_not_name _ word).1 spells.2
          | ofInterface => exact (typeWords_not_name _ word).2 spells.2
          | ofAlias => exact spells.2.2.2 absolute word

theorem interfaceIdent_eq_none {name : String} (all : ∀ x ∈ name.toList, isIdentChar x = true)
    (other : ¬IsInterface name) (ends : ∀ c ∈ rest.head?, isIdentChar c = false) :
    interfaceIdent (name.toList ++ rest) = none := by
  cases found : interfaceIdent (name.toList ++ rest) with
  | none => rfl
  | some last =>
      obtain ⟨middle, bar, capital⟩ := Option.bind_eq_some_iff.1 found
      have starts := word_eq_some_iff.1 bar
      obtain ⟨word, ident, rfl, stop⟩ := exists_ident capital
      -- the identifier that was read is the name
      have whole := identRun_append all ends
      have read : ∀ x ∈ '_' :: word, isIdentChar x = true := List.forall_mem_cons.2
        ⟨by decide, IsIdent.all (fun _ => Char.isIdentChar_of_isUpper) ident⟩
      have same := identRun_append read stop
      rw [List.cons_append, ← List.singleton_append, ← starts, whole] at same
      exact (other ⟨word, same, ident⟩).elim

/-- A name of another kind is not read as that of an interface. -/
theorem interfaceName_eq_none {name : TypeName} {kind : NameKind} (spells : name.Spells kind)
    (other : kind ≠ .ofInterface) (ends : Ends rest) :
    interfaceName (name.print ++ rest) = none := by
  have not_interface : ¬IsInterface name.base := by
    cases kind with
    | ofClass =>
        rintro ⟨word, spelled, -⟩
        obtain ⟨c, rest, same, upper, -⟩ := spells.2
        obtain ⟨rfl, -⟩ := List.cons.inj (spelled.symm.trans same)
        exact absurd upper (by decide)
    | ofInterface => exact (other rfl).elim
    | ofAlias => exact spells.2.2.1
  -- The base name is not taken for a part of the path: no separator is behind it, or it begins in
  -- lower case.
  have none : andThen upperIdent separator (name.base.toList ++ rest) = none := by
    cases kind with
    | ofClass =>
        rw [andThen, spells.2.read ends.ident]
        cases rest with
        | nil => rfl
        | cons c rest => exact separator_eq_none (ends c rfl).2 rest
    | ofInterface => exact (other rfl).elim
    | ofAlias =>
        obtain ⟨c, word, spelled, first, -⟩ := spells.2.1.1
        rw [spelled]
        exact andThen_of_none (ident_eq_none (Char.isUpper_of_isLowerStart first))
  have head : ∀ c ∈ (name.base.toList ++ rest).head?, c ≠ ':' := by
    have ends := ends
    have all := spells.base_all
    cases base_eq : name.base.toList with
    | nil => exact fun c member => (ends c member).2
    | cons c word =>
        rintro _ ⟨⟩ rfl
        exact absurd (all ':' (by simp [base_eq])) (by decide)
  rw [name.print_eq, List.append_assoc, List.append_assoc, interfaceName, andThen,
    qualifier_components _ spells.path_all none head]
  exact interfaceIdent_eq_none spells.base_all not_interface ends.ident

/-- The name of an alias is not read as that of a class. -/
theorem className_eq_none {name : TypeName} (spells : name.Spells .ofAlias) :
    className (name.print ++ rest) = none := by
  obtain ⟨c, word, spelled, first, -⟩ := spells.2.1.1
  have head : ∀ c ∈ (name.base.toList ++ rest).head?, c ≠ ':' := by
    rw [spelled]
    rintro _ ⟨⟩ rfl
    exact absurd first (by decide)
  rw [name.print_eq, spells.1, components_nil, List.nil_append, List.append_assoc, className,
    andThen, maybe_separator _ head]
  show andThen upperIdent _ (name.base.toList ++ rest) = none
  rw [spelled]
  exact andThen_of_none (ident_eq_none (Char.isUpper_of_isLowerStart first))

theorem colonAhead_of_ends (ends : Ends rest) : colonAhead rest = false := by
  cases rest with
  | nil => rfl
  | cons c rest =>
      have := (ends c rfl).2
      unfold colonAhead
      split
      · rfl
      · rename_i same
        exact (this (List.cons.inj same).1).elim
      · rfl

/-- No key is read if no single colon comes after the identifier at the front. -/
theorem keywordName_eq_none (single : colonAhead (text.dropWhile isIdentChar) = false) :
    keywordName text = none := by
  have ident : ∀ {p : Char → Bool} {rest : List Char}, (∀ c, p c = true → isIdentChar c = true) →
      andThen (one p) (run isIdentChar) text = some rest → colonAhead rest = false := by
    intro p rest starts read
    obtain ⟨name, ident, rfl, ends⟩ := exists_ident read
    rwa [dropWhile_append (ident.all starts) ends] at single
  rw [keywordName]
  split
  · rename_i rest found
    rcases Option.or_eq_some_iff.1 found with read | ⟨-, read⟩
    · rw [if_neg (by simp [ident (fun _ => Char.isIdentChar_of_isLowerStart) read])]
    · rw [if_neg (by simp [ident (fun _ => Char.isIdentChar_of_isUpper) read])]
  · rfl

/-- The text is not read as a key, whatever comes after it. -/
def Keyless (text : List Char) : Prop :=
  ∀ rest, Ends rest → colonAhead ((text ++ rest).dropWhile isIdentChar) = false

theorem keyless_ident {text : List Char} (all : ∀ x ∈ text, isIdentChar x = true) :
    Keyless text := by
  intro rest ends
  rw [dropWhile_append all ends.ident]
  exact colonAhead_of_ends ends

theorem Keyless.append {first second : List Char} (keyless : Keyless first)
    (ends : ∀ rest, Ends (second ++ rest)) : Keyless (first ++ second) := by
  intro rest _
  rw [List.append_assoc]
  exact keyless _ (ends rest)

theorem keyless_cons {c : Char} (other : isIdentChar c = false) (colon : c ≠ ':')
    (text : List Char) : Keyless (c :: text) := by
  intro rest _
  rw [List.cons_append, List.dropWhile_cons_of_neg (by simp [other])]
  exact colonAhead_of_ends fun d member => Option.some.inj member ▸ ⟨other, colon⟩

theorem TypeName.Spells.keyless {name : TypeName} {kind : NameKind} (spells : name.Spells kind) :
    Keyless name.print := by
  intro rest ends
  rw [name.print_eq, List.append_assoc, List.append_assoc]
  have double : ∀ text, colonAhead ((Namespace.separator ++ text).dropWhile isIdentChar) = false :=
    fun _ => rfl
  cases name.scope.absolute with
  | true => exact double _
  | false =>
      show colonAhead ((components name.scope.path ++ (name.base.toList ++ rest)).dropWhile
        isIdentChar) = false
      cases path_eq : name.scope.path with
      | nil => exact keyless_ident spells.base_all rest ends
      | cons part path =>
          have upper := spells.path_all part (by simp [path_eq])
          rw [components_cons, List.append_assoc, List.append_assoc,
            dropWhile_append upper.all (not_isIdentChar_separator _)]
          rfl

end Qualified

end Signet
