import Signet.Grammar.Phrase

/-!
# What scanners take

A scanner that succeeds takes characters off the front of the text and leaves the rest. `Takes`
says so, together with how many characters it takes at least. Every token of the grammar takes at
least one, except the end of the text.
-/

namespace Signet.Grammar

section Decide

variable {p : Char → Prop} [DecidablePred p]

/-- What holds of the characters of a text is decided by going through the text, not through all
characters that there are. -/
instance (priority := high) decidableForallMemText (text : List Char) :
    Decidable (∀ c ∈ text, p c) := List.decidableBAll p text

instance (priority := high) decidableForallMemHead : (head : Option Char) →
    Decidable (∀ c ∈ head, p c)
  | none => isTrue nofun
  | some c => decidable_of_iff (p c) (by simp)

end Decide

namespace Scanner

open Text

theorem word_eq_some_iff {expected text rest : List Char} :
    word expected text = some rest ↔ text = expected ++ rest := by
  rw [word]
  constructor
  · intro read
    split at read
    · rename_i front
      obtain ⟨rest, rfl⟩ := List.isPrefixOf_iff_prefix.1 front
      rw [List.drop_left] at read
      rw [Option.some.inj read]
    · cases read
  · rintro rfl
    rw [if_pos (List.isPrefixOf_iff_prefix.2 (List.prefix_append _ _)), List.drop_left]

/-- What the scanner leaves is the end of the text, and it is shorter by at least so much. -/
def Takes (least : Nat) (scanner : Scanner) : Prop :=
  ∀ ⦃text rest⦄, scanner text = some rest → rest <:+ text ∧ rest.length + least ≤ text.length

namespace Takes

variable {scanner first second : Scanner} {least m n : Nat}

theorem mono (takes : scanner.Takes m) (le : n ≤ m) : scanner.Takes n := by
  intro text rest read
  have ⟨suffix, shorter⟩ := takes read
  exact ⟨suffix, by omega⟩

theorem word (expected : List Char) : (Scanner.word expected).Takes expected.length := by
  intro text rest read
  obtain rfl := word_eq_some_iff.1 read
  refine ⟨List.suffix_append _ _, ?_⟩
  rw [List.length_append]
  omega

theorem one (p : Char → Bool) : (Scanner.one p).Takes 1 := by
  intro text rest read
  cases text with
  | nil => cases read
  | cons c text =>
      simp only [Scanner.one] at read
      split at read
      · obtain rfl := Option.some.inj read
        exact ⟨List.suffix_cons c text, by simp⟩
      · cases read

theorem run (p : Char → Bool) : (Scanner.run p).Takes 0 := by
  intro text rest read
  obtain rfl := Option.some.inj read
  have suffix := List.dropWhile_suffix (l := text) p
  exact ⟨suffix, suffix.length_le⟩

theorem andThen (one : first.Takes m) (two : second.Takes n) :
    (first.andThen second).Takes (m + n) := by
  intro text rest read
  obtain ⟨middle, read, later⟩ := Option.bind_eq_some_iff.1 read
  have ⟨inner, fewer⟩ := two later
  have ⟨outer, few⟩ := one read
  exact ⟨inner.trans outer, by omega⟩

theorem orElse (one : first.Takes n) (two : second.Takes n) : (first.orElse second).Takes n := by
  intro text rest read
  rcases Option.or_eq_some_iff.1 read with read | ⟨_, read⟩
  · exact one read
  · exact two read

theorem maybe (takes : scanner.Takes n) : scanner.maybe.Takes 0 := by
  intro text rest read
  rcases Option.or_eq_some_iff.1 read with read | ⟨_, read⟩
  · exact takes.mono (Nat.zero_le n) read
  · obtain rfl := Option.some.inj read
    exact ⟨List.suffix_refl _, Nat.le_refl _⟩

theorem upTo_suffix (takes : scanner.Takes n) (count : Nat) (text : List Char) :
    scanner.upTo count text <:+ text := by
  induction count generalizing text with
  | zero => exact List.suffix_refl text
  | succ count ih =>
      simp only [Scanner.upTo]
      split
      · rename_i rest read
        exact (ih rest).trans (takes read).1
      · exact List.suffix_refl text

theorem many (takes : scanner.Takes n) : scanner.many.Takes 0 := by
  intro text rest read
  obtain rfl := Option.some.inj read
  have suffix := takes.upTo_suffix text.length text
  exact ⟨suffix, suffix.length_le⟩

theorem wholeWord {words : List String} (nonempty : "" ∉ words) :
    (Scanner.wholeWord words).Takes 1 := by
  intro text rest read
  simp only [Scanner.wholeWord] at read
  split at read
  · rename_i member
    obtain rfl := Option.some.inj read
    refine ⟨List.dropWhile_suffix _, ?_⟩
    have split : (identRun text).length + (text.dropWhile isIdentChar).length = text.length := by
      rw [← List.length_append, identRun, List.takeWhile_append_dropWhile]
    have : identRun text ≠ [] := by
      intro blank
      rw [blank] at member
      exact nonempty (by simpa using member)
    have := List.length_pos_iff.2 this
    omega
  · cases read

theorem firstOf {words : List String} (nonempty : ∀ word ∈ words, word.toList ≠ []) :
    (Scanner.firstOf words).Takes 1 := by
  induction words with
  | nil =>
      intro text rest read
      cases read
  | cons text words ih =>
      obtain ⟨here, rest⟩ := List.forall_mem_cons.1 nonempty
      exact ((word text.toList).mono (List.length_pos_iff.2 here)).orElse (ih rest)

theorem between (mark : Char) : (Scanner.between mark).Takes 1 := by
  intro text rest read
  simp only [Scanner.between] at read
  split at read
  · rename_i c text
    split at read
    · split at read
      · rename_i other rest' found
        obtain rfl := Option.some.inj read
        have suffix : other :: rest' <:+ text := found ▸ List.dropWhile_suffix _
        have := suffix.length_le
        refine ⟨(List.suffix_cons other rest').trans (suffix.trans (List.suffix_cons c text)), ?_⟩
        simp only [List.length_cons] at this ⊢
        omega
      · cases read
    · cases read
  · cases read

end Takes

/-! ## Tokens -/

/-- An identifier is a first character and a run of identifier characters. -/
theorem takes_ident (p : Char → Bool) : (andThen (one p) (run isIdentChar)).Takes 1 :=
  (Takes.one p).andThen (Takes.run isIdentChar)

theorem takes_separator : separator.Takes 2 := Takes.word [':', ':']

theorem takes_qualifier : qualifier.Takes 0 :=
  takes_separator.maybe.andThen ((takes_ident Char.isUpper).andThen takes_separator).many

theorem takes_className : className.Takes 1 :=
  (takes_separator.maybe.andThen ((takes_ident Char.isUpper).andThen
    (takes_separator.andThen (takes_ident Char.isUpper)).many)).mono (by omega)

theorem takes_interfaceName : interfaceName.Takes 1 :=
  (takes_qualifier.andThen ((Takes.word ['_']).andThen (takes_ident Char.isUpper))).mono
    (by decide)

theorem takes_varName : varName.Takes 1 := by
  intro text rest read
  simp only [varName] at read
  split at read
  · cases read
  · exact takes_ident isLowerStart read

theorem takes_aliasName : aliasName.Takes 1 := takes_qualifier.andThen takes_varName

theorem takes_keywordName : keywordName.Takes 1 := by
  intro text rest read
  simp only [keywordName] at read
  split at read
  · rename_i other found
    split at read
    · obtain rfl := Option.some.inj read
      exact (takes_ident isLowerStart).orElse (takes_ident Char.isUpper) found
    · cases read
  · cases read

theorem takes_markedIdent : markedIdent.Takes 1 :=
  (Takes.one isIdentStart).andThen ((Takes.run isIdentChar).andThen (Takes.one isNameMark).maybe)

theorem takes_methodName : methodName.Takes 1 := by
  have quoted : quotedName.Takes 1 := by
    intro text rest read
    simp only [quotedName] at read
    split at read
    · split at read
      · cases read
      · exact Takes.between backtick read
    · cases read
  exact quoted.orElse ((Takes.firstOf (by decide)).orElse takes_markedIdent)

/-- The end of the text takes nothing. -/
theorem takes_finish : finish.Takes 0 := by
  intro text rest read
  simp only [finish] at read
  split at read
  · obtain rfl := Option.some.inj read
    exact ⟨List.suffix_refl _, Nat.le_refl _⟩
  · cases read

end Scanner

end Signet.Grammar
