import Signet.Proofs.Grammar.Alternatives
import Signet.Proofs.Reading.Parts
import Signet.Type.Print

/-!
# Literals in a text

There are four kinds of literals, and the first character of a literal tells which one it is. In
front of a rest that does not go on with it (`Literal.Stops`) a literal is read from its printed
text, unless it is a string with a character that is printed in another way (`Literal.Plain`).
-/

namespace Signet

open Text Grammar Scanner

variable {c : Char} {name text token rest : List Char}

/-! ## Symbols -/

/-- An identifier and at most one mark after it. -/
def IsSymbol (name : List Char) : Prop :=
  ∃ word mark, name = word ++ mark ∧ IsIdent isIdentStart word ∧
    (mark = [] ∨ ∃ c, mark = [c] ∧ isNameMark c = true)

/-- There is a mark at the end of the name. -/
def IsMarked (name : List Char) : Prop := ∃ c ∈ name.getLast?, isNameMark c = true

instance : DecidablePred IsMarked := fun name =>
  decidable_of_iff (name.getLast?.any isNameMark = true) (by simp [IsMarked, Option.any_eq_true])

theorem Char.isIdentChar_of_isIdentStart (start : isIdentStart c = true) :
    isIdentChar c = true := by
  simp only [isIdentStart, Bool.or_eq_true, decide_eq_true_eq] at start
  rcases start with alpha | rfl
  · exact Char.isIdentChar_of_isLetter (Bool.or_eq_true_iff.1 alpha)
  · decide

theorem Char.not_isIdentChar_of_isNameMark (mark : isNameMark c = true) :
    isIdentChar c = false := by
  simp only [isNameMark, Bool.or_eq_true, decide_eq_true_eq] at mark
  rcases mark with (rfl | rfl) | rfl <;> decide

/-- An identifier has no mark. -/
theorem not_isMarked (all : ∀ c ∈ name, isIdentChar c = true) : ¬IsMarked name := by
  rintro ⟨c, last, mark⟩
  have ident := all c (List.mem_of_getLast? last)
  exact nomatch ident.symm.trans (Char.not_isIdentChar_of_isNameMark mark)

/-- A mark can be added to a symbol that has none. -/
theorem IsSymbol.concat (symbol : IsSymbol name) (unmarked : ¬IsMarked name)
    (mark : isNameMark c = true) : IsSymbol (name ++ [c]) := by
  obtain ⟨word, last, rfl, ident, rfl | ⟨d, rfl, isMark⟩⟩ := symbol
  · rw [List.append_nil]
    exact ⟨word, [c], rfl, ident, .inr ⟨c, rfl, mark⟩⟩
  · exact (unmarked ⟨d, by simp, isMark⟩).elim

/-- A symbol is read where no identifier goes on and, if it has none, no mark follows. -/
theorem IsSymbol.read (symbol : IsSymbol name) (ends : ∀ c ∈ rest.head?, isIdentChar c = false)
    (unmarked : ¬IsMarked name → ∀ c ∈ rest.head?, isNameMark c = false) :
    markedIdent (name ++ rest) = some rest := by
  obtain ⟨word, mark, rfl, ident, marked⟩ := symbol
  have letters := ident.all fun _ => Char.isIdentChar_of_isIdentStart
  obtain ⟨c, word, rfl, first, all⟩ := ident
  have stop : ∀ c ∈ (mark ++ rest).head?, isIdentChar c = false := by
    rcases marked with rfl | ⟨c, rfl, isMark⟩
    · exact ends
    · rintro _ ⟨⟩
      exact Char.not_isIdentChar_of_isNameMark isMark
  have tail : maybe (one isNameMark) (mark ++ rest) = some rest := by
    rcases marked with rfl | ⟨c, rfl, isMark⟩
    · rw [List.append_nil] at unmarked
      cases rest with
      | nil => rfl
      | cons d rest => simp [maybe, one, unmarked (not_isMarked letters) d rfl]
    · simp [maybe, one, isMark]
  rw [List.append_assoc, List.cons_append]
  simp only [markedIdent, andThen, one, first, if_true, Option.bind_eq_bind, Option.bind_some, run]
  rw [dropWhile_append all stop]
  exact tail

/-- A symbol does not start with a colon. -/
theorem IsSymbol.dropWhile_colon (symbol : IsSymbol name) :
    (':' :: name).dropWhile (· = ':') = name := by
  obtain ⟨_, mark, rfl, ⟨c, word, rfl, first, -⟩, -⟩ := symbol
  have other : c ≠ ':' := by
    rintro rfl
    exact absurd first (by decide)
  rw [List.dropWhile_cons_of_pos (by decide), List.cons_append,
    List.dropWhile_cons_of_neg (by simpa using other)]

theorem exists_symbol (read : markedIdent text = some rest) :
    ∃ name, IsSymbol name ∧ text = name ++ rest := by
  obtain ⟨middle, first, read⟩ := Option.bind_eq_some_iff.1 read
  have marked : maybe (one isNameMark) (middle.dropWhile isIdentChar) = some rest := read
  have front : andThen (one isIdentStart) (run isIdentChar) text =
      some (middle.dropWhile isIdentChar) := by
    rw [andThen, first]
    rfl
  obtain ⟨word, ident, rfl, -⟩ := exists_ident front
  -- A name may end in one of the marks.
  rcases Option.or_eq_some_iff.1 marked with mark | ⟨-, same⟩
  · cases found : middle.dropWhile isIdentChar with
    | nil =>
        rw [found] at mark
        cases mark
    | cons c last =>
        rw [found] at mark
        simp only [one] at mark
        split at mark
        · rename_i isMark
          obtain rfl := Option.some.inj mark
          exact ⟨word ++ [c], ⟨word, [c], rfl, ident, .inr ⟨c, rfl, isMark⟩⟩, by simp⟩
        · cases mark
  · obtain rfl := Option.some.inj same
    exact ⟨word, ⟨word, [], (List.append_nil _).symm, ident, .inl rfl⟩, rfl⟩

/-! ## Strings -/

/-- A character is written in quotes as it is exactly if it can be read on its own and is neither a
quote nor a backslash. -/
theorem quoteChar_eq_singleton_iff :
    quoteChar c = [c] ↔ isPrintable c = true ∧ c ≠ '"' ∧ c ≠ '\\' := by
  unfold quoteChar
  constructor
  · intro same
    split at same
    · cases same
    split at same
    · cases same
    iterate 4
      split at same
      · simp at same
    split at same
    · rename_i quote backslash _ _ _ _ printable
      exact ⟨printable, quote, backslash⟩
    · simp at same
  · rintro ⟨printable, quote, backslash⟩
    have control : ∀ d : Char, isPrintable d = false → c ≠ d := by
      rintro d other rfl
      exact nomatch printable.symm.trans other
    rw [if_neg quote, if_neg backslash, if_neg (control _ (by decide +kernel)),
      if_neg (control _ (by decide +kernel)), if_neg (control _ (by decide +kernel)),
      if_neg (control _ (by decide +kernel)), if_pos printable]

/-- An escape starts with a backslash. -/
theorem exists_escape (escaped : quoteChar c ≠ [c]) : ∃ others, quoteChar c = '\\' :: others := by
  unfold quoteChar at escaped ⊢
  iterate 6
    split
    · exact ⟨_, rfl⟩
  split
  · rename_i quote backslash tab return_ newline null printable
    rw [if_neg quote, if_neg backslash, if_neg tab, if_neg return_, if_neg newline, if_neg null,
      if_pos printable] at escaped
    exact (escaped rfl).elim
  · exact ⟨_, rfl⟩

/-- Behind a backslash of its own the quoted form of a text does not start with the text up to a
quote. -/
theorem escaped_ne (count : Nat) (text more after : List Char) :
    List.replicate (count + 1) '\\' ++ text.flatMap quoteChar ++ more ≠ text ++ '"' :: after := by
  induction text generalizing count with
  | nil => simp [List.replicate_succ]
  | cons c text ih =>
      intro same
      rw [List.replicate_succ, List.cons_append, List.cons_append, List.cons_append] at same
      obtain ⟨rfl, same⟩ := List.cons.inj same
      have backslash : quoteChar '\\' = List.replicate 2 '\\' := by decide
      refine ih (count + 1) (Eq.trans ?_ same)
      rw [List.flatMap_cons, backslash, ← List.append_assoc, List.replicate_append_replicate]

/-- A text whose quoted form starts with the text up to a quote needs no escapes. -/
theorem quoteChar_eq_of_append {more after : List Char}
    (same : text.flatMap quoteChar ++ more = text ++ '"' :: after) :
    ∀ c ∈ text, quoteChar c = [c] := by
  induction text with
  | nil => exact nofun
  | cons c text ih =>
      rw [List.flatMap_cons, List.append_assoc] at same
      by_cases plain : quoteChar c = [c]
      · rw [plain] at same
        exact List.forall_mem_cons.2 ⟨plain, ih (List.cons.inj same).2⟩
      · -- an escape starts with a backslash, so the character must be one itself
        obtain ⟨others, escape⟩ := exists_escape plain
        rw [escape] at same
        obtain ⟨rfl, later⟩ := List.cons.inj same
        obtain rfl : others = ['\\'] := (List.cons.inj escape).2.symm
        exact (escaped_ne 0 text more after later).elim

/-- Text that needs no escapes is quoted by putting quotes around it. -/
theorem quote_of_plain (plain : ∀ c ∈ text, quoteChar c = [c]) :
    quote text = '"' :: (text ++ ['"']) := by
  have same : text.flatMap quoteChar = text := by
    rw [List.flatMap_congr plain, List.flatMap_singleton']
  rw [quote, same]
  rfl

/-- What stands between marks is read up to the next mark. -/
theorem between_append {mark : Char} (outside : mark ∉ text) :
    between mark (mark :: (text ++ mark :: rest)) = some rest := by
  have other : ∀ c ∈ text, decide (c ≠ mark) = true := fun c member => decide_eq_true (by
    rintro rfl
    exact outside member)
  have stop : (text ++ mark :: rest).dropWhile (· ≠ mark) = mark :: rest := by
    rw [List.dropWhile_append_of_pos other, List.dropWhile_cons_of_neg (by simp)]
  rw [between, if_pos rfl, stop]

/-! ## Numbers -/

/-- A number as text: digits, and perhaps a sign before them. -/
theorem toList_toString_int (value : Int) : (toString value).toList =
    (if 0 ≤ value then [] else ['-']) ++ Nat.toDigits 10 value.natAbs := by
  have digits : ∀ n : Nat, n.repr.toList = Nat.toDigits 10 n := fun n => by
    rw [Nat.repr_eq_ofList_toDigits, String.toList_ofList]
  show value.repr.toList = _
  rw [Int.repr_eq_if]
  split
  · rw [digits, List.nil_append]
    congr 1
    omega
  · rw [String.toList_append, digits]
    congr 2
    omega

theorem isDigit_of_mem_digits {value : Nat} (member : c ∈ Nat.toDigits 10 value) :
    c.isDigit = true :=
  Nat.isDigit_of_mem_toDigits (by decide) (by decide) member

/-- The number that is read from its text is the number. -/
theorem integerValue_toString (value : Int) : integerValue (toString value).toList = value := by
  -- What is printed has no separators, and its digits begin with no sign.
  have plain : (toString value).toList.filter (· ≠ '_') = (toString value).toList := by
    refine List.filter_eq_self.2 fun c member => decide_eq_true ?_
    rintro rfl
    rw [toList_toString_int, List.mem_append] at member
    rcases member with sign | digit
    · split at sign <;> simp at sign
    · exact Nat.underscore_not_in_toDigits digit
  have digits : digitsValue (Nat.toDigits 10 value.natAbs) = value.natAbs :=
    Nat.ofDigitChars_ten_toDigits
  have unsigned : ∀ rest, Nat.toDigits 10 value.natAbs ≠ '-' :: rest := by
    intro rest same
    have : ('-' : Char) ∈ Nat.toDigits 10 value.natAbs := same ▸ List.mem_cons_self
    exact nomatch isDigit_of_mem_digits this
  rw [integerValue, plain, toList_toString_int]
  by_cases sign : 0 ≤ value
  · rw [if_pos sign, List.nil_append]
    split
    · rename_i same
      exact (unsigned _ same).elim
    · rw [digits]
      omega
  · rw [if_neg sign]
    show -(digitsValue (Nat.toDigits 10 value.natAbs) : Int) = value
    rw [digits]
    omega

/-- A number is read where no digit goes on. -/
theorem integerLiteral_toString (value : Int) (ends : ∀ c ∈ rest.head?, isIdentChar c = false) :
    integerLiteral ((toString value).toList ++ rest) = some rest := by
  obtain ⟨c, digits, spelled⟩ := List.exists_cons_of_ne_nil
    (Nat.toDigits_ne_nil (n := value.natAbs) (b := 10))
  have all : ∀ d ∈ c :: digits, d.isDigit = true := fun d member =>
    isDigit_of_mem_digits (spelled ▸ member)
  obtain ⟨first, others⟩ := List.forall_mem_cons.1 all
  -- All digits are taken, for nothing that goes on with a digit follows them.
  have stop : (digits ++ rest).dropWhile isDigitOrBar = rest := by
    rw [List.dropWhile_append_of_pos fun d member => by simp [isDigitOrBar, others d member]]
    cases rest with
    | nil => rfl
    | cons d rest =>
        have other := ends d rfl
        simp only [isIdentChar, Char.isAlphanum, Bool.or_eq_false_iff] at other
        rw [List.dropWhile_cons_of_neg (by simp [isDigitOrBar, other])]
  have number : andThen (one Char.isDigit) (run isDigitOrBar) (c :: digits ++ rest) = some rest := by
    simp only [andThen, one, List.cons_append, first, if_true, Option.bind_eq_bind,
      Option.bind_some, run, stop]
  have sign : maybe (word ['-']) ((if 0 ≤ value then [] else ['-']) ++ (c :: digits ++ rest)) =
      some (c :: digits ++ rest) := by
    split
    · have other : word ['-'] (c :: digits ++ rest) = none := by
        refine Option.eq_none_iff_forall_ne_some.2 fun left found => ?_
        obtain ⟨rfl, -⟩ := List.cons.inj (word_eq_some_iff.1 found)
        exact absurd first (by decide)
      rw [List.nil_append, maybe, other, Option.none_or]
    · rw [maybe, word_eq_some_iff.2 rfl, Option.some_or]
  rw [toList_toString_int, spelled, List.append_assoc, integerLiteral, andThen, sign]
  exact number

/-! ## Kinds of literals -/

/-- The kinds of literals. -/
inductive LiteralKind where
  | symbol
  | string
  | integer
  | bool

namespace LiteralKind

/-- The rule for a kind of literals. -/
def rule : LiteralKind → Rule
  | symbol => .symbolLiteral
  | string => .stringLiteral
  | integer => .integerLiteral
  | bool => .booleanLiteral

/-- The scanner for a kind of literals. -/
def scanner : LiteralKind → Scanner
  | symbol => symbolLiteral
  | string => stringLiteral
  | integer => integerLiteral
  | bool => booleanLiteral

theorem body_rule (kind : LiteralKind) : kind.rule.body = .token kind.scanner := by
  cases kind <;> rfl

theorem takes (kind : LiteralKind) : kind.scanner.Takes 1 := by
  have fits := kind.rule.fits
  rw [body_rule] at fits
  exact fits.mono (by cases kind <;> decide)

/-- The kind of literals that start with a character. -/
def ofStart? (c : Char) : Option LiteralKind :=
  if c = ':' then some symbol
  else if c = '"' || c = '\'' then some string
  else if c = '-' || c.isDigit then some integer
  else if c = 't' || c = 'f' then some bool
  else none

theorem ofStart?_of_isDigit (digit : c.isDigit = true) : ofStart? c = some integer := by
  have other : ∀ d : Char, d.isDigit = false → c ≠ d := by
    rintro d different rfl
    exact nomatch digit.symm.trans different
  simp [ofStart?, digit, other ':' (by decide), other '"' (by decide), other '\'' (by decide)]

/-- What a token says. A number that is out of bounds says nothing. -/
def literal? : LiteralKind → List Char → Option Literal
  | symbol, token => some (.symbol (String.ofList (token.dropWhile (· = ':'))))
  | string, token => some (.string (unquoted token))
  | integer, token =>
    if integerBounds.1 ≤ integerValue token && integerValue token ≤ integerBounds.2 then
      some (.integer (integerValue token))
    else none
  | bool, token => some (.bool (String.ofList token = "true"))

section Meaning

variable {scope : List String} {tree : ParseTree} {type : Ty}

theorem ok_literal_iff {said : Literal} : (Except.ok ⟨.literal said⟩ : Except Fault Ty) = .ok type ↔
    ∃ literal, some said = some literal ∧ type = ⟨.literal literal⟩ := by
  constructor
  · intro same
    exact ⟨said, rfl, (Except.ok.inj same).symm⟩
  · rintro ⟨_, ⟨⟩, rfl⟩
    rfl

theorem readInteger_eq_ok_iff : readInteger tree = .ok type ↔
    ∃ literal, integer.literal? tree.text = some literal ∧ type = ⟨.literal literal⟩ := by
  rw [readInteger, literal?]
  split
  · exact ok_literal_iff
  · exact ⟨nofun, fun ⟨_, refused, _⟩ => nomatch refused⟩

/-- The meaning of the tree of a literal is what the token says. -/
theorem readTypeTree_eq_ok_iff (kind : LiteralKind) (rule : tree.rule = kind.rule)
    (children : tree.children = []) : readTypeTree scope tree = .ok type ↔
      ∃ literal, kind.literal? tree.text = some literal ∧ type = ⟨.literal literal⟩ := by
  obtain ⟨treeRule, stretch, trees⟩ := tree
  obtain rfl : treeRule = _ := rule
  obtain rfl : trees = _ := children
  cases kind with
  | symbol | string | bool => exact ok_literal_iff
  | integer => exact readInteger_eq_ok_iff

end Meaning

/-- What is scanned as a literal starts as one of its kind. -/
theorem exists_start {kind : LiteralKind} (scanned : kind.scanner text = some rest) :
    ∃ c others, text = c :: others ∧ ofStart? c = some kind := by
  have quoted : ∀ {mark}, between mark text = some rest → ∃ others, text = mark :: others := by
    intro mark read
    cases text with
    | nil => cases read
    | cons c text =>
        simp only [between] at read
        split at read
        · rename_i same
          exact ⟨text, by rw [same]⟩
        · cases read
  cases kind with
  | symbol =>
      obtain ⟨middle, colon, -⟩ := Option.bind_eq_some_iff.1 scanned
      exact ⟨':', middle, word_eq_some_iff.1 colon, rfl⟩
  | string =>
      rcases Option.or_eq_some_iff.1 scanned with read | ⟨-, read⟩
      · obtain ⟨others, rfl⟩ := quoted read
        exact ⟨_, others, rfl, rfl⟩
      · obtain ⟨others, rfl⟩ := quoted read
        exact ⟨_, others, rfl, rfl⟩
  | integer =>
      -- The sign may be missing, and then a digit is first.
      obtain ⟨middle, sign, digits⟩ := Option.bind_eq_some_iff.1 scanned
      rcases Option.or_eq_some_iff.1 sign with read | ⟨-, same⟩
      · exact ⟨'-', middle, word_eq_some_iff.1 read, rfl⟩
      · obtain rfl := Option.some.inj same
        obtain ⟨last, first, -⟩ := Option.bind_eq_some_iff.1 digits
        cases text with
        | nil => cases first
        | cons c text =>
            simp only [one] at first
            split at first
            · rename_i digit
              exact ⟨c, text, rfl, ofStart?_of_isDigit digit⟩
            · cases first
  | bool =>
      have scanned : wholeWord ["true", "false"] text = some rest := scanned
      rw [wholeWord] at scanned
      split at scanned
      · rename_i found
        have whole := List.takeWhile_append_dropWhile (p := isIdentChar) (l := text)
        have found : String.ofList (identRun text) = "true" ∨
            String.ofList (identRun text) = "false" := by simpa using found
        rw [← whole]
        rcases found with found | found
        · have word : identRun text = "true".toList := by rw [← found, String.toList_ofList]
          exact ⟨'t', _, congrArg (· ++ _) word, rfl⟩
        · have word : identRun text = "false".toList := by rw [← found, String.toList_ofList]
          exact ⟨'f', _, congrArg (· ++ _) word, rfl⟩
      · cases scanned

/-- Where a literal of a kind starts, no other kind of literals is scanned. -/
theorem scanner_eq_none {kind other : LiteralKind} (start : ofStart? c = some kind)
    (different : other ≠ kind) : other.scanner (c :: text) = none := by
  refine Option.eq_none_iff_forall_ne_some.2 fun rest scanned => different ?_
  obtain ⟨_, _, same, first⟩ := exists_start scanned
  obtain ⟨rfl, rfl⟩ := List.cons.inj same
  exact Option.some.inj (first.symm.trans start)

/-- Where a literal starts, the alternatives before its kind are refused. -/
theorem refuses_of_start {kind : LiteralKind} (start : ofStart? c = some kind) :
    ∀ other ∈ Phrase.primaryRules.takeWhile (· ≠ kind.rule),
      (Phrase.call other).Refuses (c :: text) := by
  have head : ∀ mark, ofStart? mark = none → (c :: text).head? ≠ some mark := by
    rintro mark none same
    obtain rfl := Option.some.inj same
    exact nomatch start.symm.trans none
  have paren := Phrase.parenType_refuses (head '(' (by decide))
  have tuple := Phrase.tupleType_refuses (head '[' (by decide))
  have proc := Phrase.procType_refuses (head '^' (by decide))
  -- What is tried before are brackets and literals of other kinds.
  have literal : ∀ other : LiteralKind, other ≠ kind → (Phrase.call other.rule).Refuses (c :: text) :=
    fun other different => .token other.body_rule (scanner_eq_none start different)
  cases kind with
  | symbol =>
      show ∀ other ∈ [Rule.parenType, .tupleType, .procType], _
      simp only [List.forall_mem_cons]
      exact ⟨paren, tuple, proc, nofun⟩
  | string =>
      show ∀ other ∈ [Rule.parenType, .tupleType, .procType, .symbolLiteral], _
      simp only [List.forall_mem_cons]
      exact ⟨paren, tuple, proc, literal symbol nofun, nofun⟩
  | integer =>
      show ∀ other ∈ [Rule.parenType, .tupleType, .procType, .symbolLiteral, .stringLiteral], _
      simp only [List.forall_mem_cons]
      exact ⟨paren, tuple, proc, literal symbol nofun, literal string nofun, nofun⟩
  | bool =>
      show ∀ other ∈ [Rule.parenType, .tupleType, .procType, .symbolLiteral, .stringLiteral,
        .integerLiteral], _
      simp only [List.forall_mem_cons]
      exact ⟨paren, tuple, proc, literal symbol nofun, literal string nofun,
        literal integer nofun, nofun⟩

end LiteralKind

/-! ## Literals as text -/

namespace Literal

variable {literal : Literal}

/-- The kind of a literal. -/
def kind : Literal → LiteralKind
  | symbol _ => .symbol
  | string _ => .string
  | integer _ => .integer
  | bool _ => .bool

/-- The literal can be written: a symbol is spelled as one, and a number is in bounds. -/
def Written : Literal → Prop
  | symbol name => IsSymbol name.toList
  | integer value => integerBounds.1 ≤ value ∧ value ≤ integerBounds.2
  | string _ | bool _ => True

/-- Every character of a string is written as it is. -/
def Plain : Literal → Prop
  | string text => ∀ c ∈ text.toList, quoteChar c = [c]
  | symbol _ | integer _ | bool _ => True

/-- No mark can be added to the literal: a symbol has one already. -/
def Sealed : Literal → Prop
  | symbol name => IsMarked name.toList
  | string _ | integer _ | bool _ => True

/-- The literal does not go on in the rest. -/
structure Stops (literal : Literal) (rest : List Char) : Prop where
  ends : ∀ c ∈ rest.head?, isIdentChar c = false
  marks : ¬literal.Sealed → ∀ c ∈ rest.head?, isNameMark c = false

/-- A literal is scanned from its text. -/
theorem Written.scan (written : literal.Written) (plain : literal.Plain)
    (stops : literal.Stops rest) :
    literal.kind.scanner (literal.print ++ rest) = some rest := by
  cases literal with
  | symbol name =>
      show symbolLiteral ([':'] ++ (name.toList ++ rest)) = some rest
      rw [symbolLiteral, andThen, word_eq_some_iff.2 rfl]
      exact IsSymbol.read written stops.ends stops.marks
  | string text =>
      have outside : '"' ∉ text.toList := fun member =>
        (quoteChar_eq_singleton_iff.1 (plain _ member)).2.1 rfl
      show stringLiteral (quote text.toList ++ rest) = some rest
      rw [quote_of_plain plain, List.cons_append, List.append_assoc, List.singleton_append,
        stringLiteral, orElse, between_append outside, Option.some_or]
  | integer value => exact integerLiteral_toString value stops.ends
  | bool value =>
      have ident : ∀ c ∈ (toString value).toList, isIdentChar c = true := by
        cases value <;> decide
      show booleanLiteral ((toString value).toList ++ rest) = some rest
      rw [booleanLiteral, wholeWord_append ident stops.ends, if_pos]
      cases value <;> decide

/-- The text of a literal says the literal. -/
theorem Written.literal?_print (written : literal.Written) (plain : literal.Plain) :
    literal.kind.literal? literal.print = some literal := by
  cases literal with
  | symbol name =>
      have symbol : IsSymbol name.toList := written
      show some (Literal.symbol (String.ofList ((':' :: name.toList).dropWhile (· = ':')))) = _
      rw [symbol.dropWhile_colon, String.ofList_toList]
  | string text =>
      show some (string (unquoted (quote text.toList))) = _
      rw [quote_of_plain plain, unquoted]
      simp
  | integer value =>
      show (if _ then _ else _) = _
      rw [Literal.print, integerValue_toString, if_pos]
      simpa [Written] using written
  | bool value => cases value <;> rfl

end Literal

end Signet
