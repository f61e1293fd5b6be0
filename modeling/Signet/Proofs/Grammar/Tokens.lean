import Signet.Proofs.Grammar.Names
import Signet.Proofs.Grammar.Reader
import Signet.Text.Blank

/-!
# How tokens end

The last character that a scanner takes is no white space: identifiers, numbers and marks have none
at all, and what stands between quotes ends with the second one. So trimming a text never cuts off
a part of the token at its end.
-/

namespace Signet.Text

/-- Printable characters of ASCII other than the space are no white space. -/
theorem isBlank_eq_false {c : Char} (above : 0x20 < c.toNat) (below : c.toNat < 0x85) :
    isBlank c = false := by
  rw [← Bool.not_eq_true, isBlank, Ranges.has_iff]
  rintro ⟨range, member, low, high⟩
  simp only [blankRanges, List.mem_cons, List.not_mem_nil, or_false] at member
  rcases member with rfl | rfl | rfl | rfl | rfl | rfl | rfl | rfl | rfl | rfl <;> omega

end Signet.Text

namespace Signet.Grammar

open Text

/-- No character of a class is white space. -/
def Inky (p : Char → Bool) : Prop := ∀ c, p c = true → isBlank c = false

namespace Inky

theorem isUpper : Inky Char.isUpper := by
  intro c upper
  have bounds : 65 ≤ c.toNat ∧ c.toNat ≤ 90 := Char.isUpper_iff_bounds.1 upper
  exact isBlank_eq_false (by omega) (by omega)

theorem isLower : Inky Char.isLower := by
  intro c lower
  have bounds : 97 ≤ c.toNat ∧ c.toNat ≤ 122 := Char.isLower_iff_bounds.1 lower
  exact isBlank_eq_false (by omega) (by omega)

theorem isDigit : Inky Char.isDigit := by
  intro c digit
  have both : (decide (c.val ≥ 48) && decide (c.val ≤ 57)) = true := digit
  rw [Bool.and_eq_true, decide_eq_true_iff, decide_eq_true_iff] at both
  have bounds : 48 ≤ c.toNat ∧ c.toNat ≤ 57 := both
  exact isBlank_eq_false (by omega) (by omega)

theorem isAlpha : Inky Char.isAlpha := by
  intro c alpha
  rcases (Bool.or_eq_true _ _).mp alpha with upper | lower
  · exact isUpper c upper
  · exact isLower c lower

theorem isAlphanum : Inky Char.isAlphanum := by
  intro c alphanum
  rcases (Bool.or_eq_true _ _).mp alphanum with alpha | digit
  · exact isAlpha c alpha
  · exact isDigit c digit

/-- Another character may be admitted. -/
theorem or {p : Char → Bool} (inky : Inky p) {mark : Char} (visible : isBlank mark = false) :
    Inky fun c => p c || c = mark := by
  intro c holds
  rw [Bool.or_eq_true, decide_eq_true_eq] at holds
  rcases holds with holds | rfl
  · exact inky c holds
  · exact visible

theorem isIdentChar : Inky isIdentChar := isAlphanum.or (by decide)

theorem isLowerStart : Inky isLowerStart := isLower.or (by decide)

theorem isIdentStart : Inky Scanner.isIdentStart := isAlpha.or (by decide)

theorem isDigitOrBar : Inky Scanner.isDigitOrBar := isDigit.or (by decide)

theorem isNameMark : Inky Scanner.isNameMark := by
  intro c mark
  simp only [Scanner.isNameMark, Bool.or_eq_true, decide_eq_true_eq] at mark
  rcases mark with (rfl | rfl) | rfl <;> decide

end Inky

/-- What leads from a text to the rest is nothing, or its last character is no white space. -/
def EndsInky (text rest : List Char) : Prop :=
  rest = text ∨ ∃ front c, text = front ++ c :: rest ∧ isBlank c = false

theorem EndsInky.trans {text middle rest : List Char} (first : EndsInky text middle)
    (second : EndsInky middle rest) : EndsInky text rest := by
  rcases second with rfl | ⟨front, c, rfl, inky⟩
  · exact first
  · rcases first with same | ⟨before, other, rfl, -⟩
    · exact .inr ⟨front, c, same.symm, inky⟩
    · exact .inr ⟨before ++ other :: front, c, by simp, inky⟩

/-- Where more characters than none were taken, the last of them is no white space. -/
theorem EndsInky.exists_last {text token rest : List Char} (ends : EndsInky text rest)
    (taken : text = token ++ rest) (nonempty : token ≠ []) :
    ∃ front c, token = front ++ [c] ∧ isBlank c = false := by
  subst taken
  rcases ends with same | ⟨front, c, split, inky⟩
  · exact absurd (List.append_left_eq_self.1 same.symm) nonempty
  · refine ⟨front, c, ?_, inky⟩
    have : token ++ rest = (front ++ [c]) ++ rest := by simpa using split
    exact List.append_cancel_right this

/-- A text that ends without white space leads there. -/
theorem endsInky_append {token : List Char} (last : ∀ c ∈ token.getLast?, isBlank c = false)
    (rest : List Char) : EndsInky (token ++ rest) rest := by
  rcases List.eq_nil_or_concat token with rfl | ⟨front, c, rfl⟩
  · exact .inl rfl
  · exact .inr ⟨front, c, by simp, last c (by simp)⟩

namespace Scanner

/-- The last character that the scanner takes, if it takes any, is no white space. -/
def Firm (scanner : Scanner) : Prop := ∀ ⦃text rest⦄, scanner text = some rest → EndsInky text rest

namespace Firm

variable {scanner first second : Scanner} {p : Char → Bool}

theorem word {expected : List Char} (last : ∀ c ∈ expected.getLast?, isBlank c = false) :
    (Scanner.word expected).Firm := by
  intro text rest read
  obtain rfl := word_eq_some_iff.1 read
  exact endsInky_append last rest

theorem one (inky : Inky p) : (Scanner.one p).Firm := by
  intro text rest read
  cases text with
  | nil => cases read
  | cons c text =>
      simp only [Scanner.one] at read
      split at read
      · rename_i holds
        obtain rfl := Option.some.inj read
        exact .inr ⟨[], c, rfl, inky c holds⟩
      · cases read

theorem dropWhile (inky : Inky p) (text : List Char) : EndsInky text (text.dropWhile p) := by
  induction text with
  | nil => exact .inl rfl
  | cons c text ih =>
      rw [List.dropWhile_cons]
      split
      · rename_i holds
        exact EndsInky.trans (.inr ⟨[], c, rfl, inky c holds⟩) ih
      · exact .inl rfl

theorem run (inky : Inky p) : (Scanner.run p).Firm := by
  intro text rest read
  obtain rfl := Option.some.inj read
  exact dropWhile inky text

theorem andThen (one : first.Firm) (two : second.Firm) : (first.andThen second).Firm := by
  intro text rest read
  obtain ⟨middle, read, later⟩ := Option.bind_eq_some_iff.1 read
  exact (one read).trans (two later)

theorem orElse (one : first.Firm) (two : second.Firm) : (first.orElse second).Firm := by
  intro text rest read
  rcases Option.or_eq_some_iff.1 read with read | ⟨_, read⟩
  · exact one read
  · exact two read

theorem maybe (firm : scanner.Firm) : scanner.maybe.Firm := by
  intro text rest read
  rcases Option.or_eq_some_iff.1 read with read | ⟨_, read⟩
  · exact firm read
  · obtain rfl := Option.some.inj read
    exact .inl rfl

theorem upTo (firm : scanner.Firm) (count : Nat) (text : List Char) :
    EndsInky text (scanner.upTo count text) := by
  induction count generalizing text with
  | zero => exact .inl rfl
  | succ count ih =>
      simp only [Scanner.upTo]
      split
      · rename_i rest read
        exact (firm read).trans (ih rest)
      · exact .inl rfl

theorem many (firm : scanner.Firm) : scanner.many.Firm := by
  intro text rest read
  obtain rfl := Option.some.inj read
  exact firm.upTo text.length text

theorem wholeWord (words : List String) : (Scanner.wholeWord words).Firm := by
  intro text rest read
  simp only [Scanner.wholeWord] at read
  split at read
  · obtain rfl := Option.some.inj read
    exact dropWhile Inky.isIdentChar text
  · cases read

theorem firstOf {words : List String}
    (last : ∀ word ∈ words, ∀ c ∈ word.toList.getLast?, isBlank c = false) :
    (Scanner.firstOf words).Firm := by
  induction words with
  | nil =>
      intro text rest read
      cases read
  | cons text words ih =>
      obtain ⟨here, rest⟩ := List.forall_mem_cons.1 last
      exact (word here).orElse (ih rest)

/-- What stands between two marks may end with a blank, but the second mark is taken as well. -/
theorem between {mark : Char} (visible : isBlank mark = false) : (Scanner.between mark).Firm := by
  intro text rest read
  simp only [Scanner.between] at read
  split at read
  · rename_i c text
    split at read
    · split at read
      · rename_i other rest' found
        obtain rfl := Option.some.inj read
        -- the first character that is not between the marks is the second mark
        have stop := eq_false_of_head?_dropWhile (· ≠ mark) text other (by rw [found]; rfl)
        obtain rfl : other = mark := by simpa using stop
        refine .inr ⟨c :: text.takeWhile (· ≠ other), other, ?_, visible⟩
        rw [List.cons_append, ← found, List.takeWhile_append_dropWhile]
      · cases read
    · cases read
  · cases read

end Firm

/-! ## Tokens -/

theorem firm_ident {p : Char → Bool} (inky : Inky p) : (andThen (one p) (run isIdentChar)).Firm :=
  (Firm.one inky).andThen (Firm.run Inky.isIdentChar)

theorem firm_separator : separator.Firm := Firm.word (by decide)

theorem firm_qualifier : qualifier.Firm :=
  firm_separator.maybe.andThen ((firm_ident Inky.isUpper).andThen firm_separator).many

theorem firm_className : className.Firm :=
  firm_separator.maybe.andThen ((firm_ident Inky.isUpper).andThen
    (firm_separator.andThen (firm_ident Inky.isUpper)).many)

theorem firm_interfaceName : interfaceName.Firm :=
  firm_qualifier.andThen ((Firm.word (by decide)).andThen (firm_ident Inky.isUpper))

theorem firm_varName : varName.Firm := by
  intro text rest read
  simp only [varName] at read
  split at read
  · cases read
  · exact firm_ident Inky.isLowerStart read

theorem firm_keywordName : keywordName.Firm := by
  intro text rest read
  simp only [keywordName] at read
  split at read
  · rename_i other found
    split at read
    · obtain rfl := Option.some.inj read
      exact (firm_ident Inky.isLowerStart).orElse (firm_ident Inky.isUpper) found
    · cases read
  · cases read

theorem firm_markedIdent : markedIdent.Firm :=
  (Firm.one Inky.isIdentStart).andThen
    ((Firm.run Inky.isIdentChar).andThen (Firm.one Inky.isNameMark).maybe)

theorem firm_methodName : methodName.Firm := by
  have quoted : quotedName.Firm := by
    intro text rest read
    simp only [quotedName] at read
    split at read
    · split at read
      · cases read
      · exact Firm.between (by decide) read
    · cases read
  exact quoted.orElse ((Firm.firstOf (by decide)).orElse firm_markedIdent)

theorem firm_finish : finish.Firm := by
  intro text rest read
  simp only [finish] at read
  split at read
  · obtain rfl := Option.some.inj read
    exact .inl rfl
  · cases read

end Scanner

/-- The marks of a phrase are not empty and do not end with white space. -/
def Phrase.inky : Phrase → Bool
  | nothing | call _ => true
  | mark text => !(text.getLast?.map isBlank).getD true
  | seq first second | alt first second => first.inky && second.inky
  | opt phrase | many phrase => phrase.inky

/-- Tokens and marks do not end with white space. -/
def Body.Firm : Body → Prop
  | .token scanner => scanner.Firm
  | .phrase items => items.inky = true

/-- No rule has a token or a mark that ends with white space. -/
theorem Rule.firm (rule : Rule) : rule.body.Firm := by
  cases rule with
  | finish => exact Scanner.firm_finish
  | upperIdent => exact Scanner.firm_ident Inky.isUpper
  | className => exact Scanner.firm_className
  | interfaceName => exact Scanner.firm_interfaceName
  | aliasName => exact Scanner.firm_qualifier.andThen Scanner.firm_varName
  | varName => exact Scanner.firm_varName
  | keywordName => exact Scanner.firm_keywordName
  | symbolLiteral => exact (Scanner.Firm.word (by decide)).andThen Scanner.firm_markedIdent
  | stringLiteral =>
      exact (Scanner.Firm.between (by decide)).orElse (Scanner.Firm.between (by decide))
  | integerLiteral =>
      exact (Scanner.Firm.word (by decide)).maybe.andThen
        ((Scanner.Firm.one Inky.isDigit).andThen (Scanner.Firm.run Inky.isDigitOrBar))
  | methodName => exact Scanner.firm_methodName
  | attributeName =>
      exact (Scanner.Firm.one Inky.isIdentStart).andThen (Scanner.Firm.run Inky.isIdentChar)
  | methodKind => exact Scanner.Firm.firstOf (by decide)
  | baseType | booleanLiteral | unchecked | variance | visibility | mixinKind | attributeKind
  | classKeyword | moduleKeyword | defKeyword | endKeyword =>
      exact Scanner.Firm.wholeWord _
  | _ =>
      show Phrase.inky _ = true
      decide

end Signet.Grammar
