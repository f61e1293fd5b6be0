import Signet.Proofs.Grammar.Tokens
import Signet.Proofs.Inline.Comments
import Signet.Proofs.Inline.Lines
import Signet.Proofs.Reading.Parts

/-!
# Texts of directives

What is read of a comment is selected by offsets: blanks around a text are skipped (`Trims`), a name
with a colon in front of it (`HasKey`), a description behind it (`Undescribed`). Each of these is
stated here as a way to cut a text into pieces, and the offsets are the lengths of the pieces. So a
directive is what its text spells (`spells_iff`).

A range selects a text exactly if the text stands there, with the right length in front of it
(`slice_eq_ok_iff_split`); the pieces of a text that stands somewhere are found with it
(`slice_piece`).
-/

namespace Signet

open Text

/-! ## Texts in a buffer -/

namespace Buffer

variable {buffer : Buffer} {range : Range} {text front piece back : List Char}

/-- A range selects a text that stands there. -/
theorem slice_eq_ok_iff_split : buffer.slice range = .ok text ↔
    ∃ before after, buffer.content = before ++ text ++ after ∧
      range = ⟨before.length, before.length + text.length⟩ := by
  rw [slice_eq_ok_iff, Range.fits_iff]
  constructor
  · rintro ⟨⟨ordered, inside⟩, rfl⟩
    have inside : range.stop ≤ buffer.content.length := inside
    refine ⟨buffer.content.take range.start, buffer.content.drop range.stop, ?_, ?_⟩
    · have later : (buffer.content.drop range.start).drop (range.stop - range.start) =
          buffer.content.drop range.stop := by
        rw [List.drop_drop, Nat.add_sub_cancel' ordered]
      rw [List.extract_eq_take_drop, List.append_assoc, ← later, List.take_append_drop,
        List.take_append_drop]
    · obtain ⟨start, stop⟩ := range
      simp only [Range.mk.injEq, List.length_take, List.extract_eq_take_drop,
        List.length_drop] at ordered inside ⊢
      omega
  · rintro ⟨before, after, split, rfl⟩
    refine ⟨⟨Nat.le_add_right .., ?_⟩, ?_⟩
    · show before.length + text.length ≤ buffer.content.length
      rw [split, List.length_append, List.length_append]
      exact Nat.le_add_right ..
    · rw [split, List.extract_eq_take_drop, Nat.add_sub_cancel_left, List.append_assoc,
        List.drop_left, List.take_left]

/-- A piece of a text stands behind what is in front of it. -/
theorem slice_piece (found : buffer.slice range = .ok (front ++ piece ++ back)) :
    buffer.slice ⟨range.start + front.length, range.start + front.length + piece.length⟩ =
      .ok piece := by
  obtain ⟨before, after, split, rfl⟩ := slice_eq_ok_iff_split.1 found
  refine slice_eq_ok_iff_split.2 ⟨before ++ front, back ++ after, ?_, ?_⟩
  · rw [split]
    simp only [List.append_assoc]
  · simp only [List.length_append]

theorem length_of_slice (found : buffer.slice range = .ok text) :
    range.stop = range.start + text.length := by
  obtain ⟨before, after, -, rfl⟩ := slice_eq_ok_iff_split.1 found
  rfl

end Buffer

namespace Inline

/-! ## Trimming -/

/-- A text with blanks on both sides and none at its own ends. Blanks alone are all in front. -/
structure Trims (whole front text back : List Char) : Prop where
  split : whole = front ++ text ++ back
  front_blank : allBlank front = true
  back_blank : allBlank back = true
  head_ink : ∀ c ∈ text.head?, isBlank c = false
  last_ink : ∀ c ∈ text.getLast?, isBlank c = false
  back_eq : text = [] → back = []

/-- A text without blanks at its end and blanks behind it. -/
theorem trimEnd_append_of_stop {text back : List Char} (blank : allBlank back = true)
    (stop : ∀ c ∈ text.getLast?, isBlank c = false) : trimEnd (text ++ back) = text := by
  have all : ∀ c ∈ back.reverse, isBlank c = true := by simpa [allBlank] using blank
  have first : ∀ c ∈ text.reverse.head?, isBlank c = false := by simpa using stop
  rw [trimEnd, List.reverse_append, dropWhile_append all first, List.reverse_reverse]

/-- Every text ends with its blanks. -/
theorem exists_trimEnd (text : List Char) : ∃ back, text = trimEnd text ++ back ∧
    allBlank back = true ∧ ∀ c ∈ (trimEnd text).getLast?, isBlank c = false := by
  refine ⟨(text.reverse.takeWhile isBlank).reverse, ?_, ?_, ?_⟩
  · rw [trimEnd, ← List.reverse_append, List.takeWhile_append_dropWhile, List.reverse_reverse]
  · rw [allBlank, List.all_reverse]
    exact List.all_takeWhile
  · rw [trimEnd, List.getLast?_reverse]
    exact eq_false_of_head?_dropWhile isBlank text.reverse

namespace Trims

variable {whole front text back : List Char}

theorem takeWhile_eq (trims : Trims whole front text back) : whole.takeWhile isBlank = front := by
  rw [trims.split, List.append_assoc]
  refine takeWhile_append (List.all_eq_true.1 trims.front_blank) fun c first => ?_
  cases text with
  | nil => simp [trims.back_eq rfl] at first
  | cons => exact trims.head_ink c first

theorem trim_eq (trims : Trims whole front text back) : trim whole = text := by
  have start : trimStart whole = text ++ back := by
    rw [trimStart_eq_drop, trims.takeWhile_eq, trims.split, List.append_assoc, List.drop_left]
  rw [trim, start, trimEnd_append_of_stop trims.back_blank trims.last_ink]

end Trims

theorem exists_trims (whole : List Char) :
    ∃ back, Trims whole (whole.takeWhile isBlank) (trim whole) back := by
  obtain ⟨back, split, blank, stop⟩ := exists_trimEnd (trimStart whole)
  have first : ∀ c ∈ (trimStart whole).head?, isBlank c = false :=
    eq_false_of_head?_dropWhile isBlank whole
  refine ⟨back, ?_, List.all_takeWhile, blank, fun c head => ?_, stop, fun none => ?_⟩
  · rw [List.append_assoc, trim, ← split, trimStart, List.takeWhile_append_dropWhile]
  · refine first c ?_
    rw [split, List.head?_append, show (trimEnd (trimStart whole)).head? = some c from head]
    rfl
  · -- with nothing in between, what is behind would begin with ink and be blank
    rw [show trimEnd (trimStart whole) = [] from none, List.nil_append] at split
    cases back with
    | nil => rfl
    | cons c back =>
        have ink := first c (by rw [split]; rfl)
        have blank : isBlank c = true := List.all_eq_true.1 blank c List.mem_cons_self
        rw [blank] at ink
        cases ink

/-- A range selects a text in another range, with nothing but blanks around it there. -/
def Narrows (buffer : Buffer) (range trimmed : Range) (text : List Char) : Prop :=
  ∃ whole front back, buffer.slice range = .ok whole ∧ Trims whole front text back ∧
    trimmed = ⟨range.start + front.length, range.start + front.length + text.length⟩

section Narrows

variable {buffer : Buffer} {range trimmed : Range} {text : List Char}

theorem Narrows.slice_eq (narrows : Narrows buffer range trimmed text) :
    buffer.slice trimmed = .ok text := by
  obtain ⟨whole, front, back, found, trims, rfl⟩ := narrows
  rw [trims.split] at found
  exact Buffer.slice_piece found

theorem trimRange_eq_ok_iff :
    trimRange buffer range = .ok trimmed ↔ ∃ text, Narrows buffer range trimmed text := by
  rw [trimRange, bind_eq_ok_iff]
  constructor
  · rintro ⟨whole, found, same⟩
    obtain ⟨back, trims⟩ := exists_trims whole
    exact ⟨trim whole, whole, _, back, found, trims, (Except.ok.inj same).symm⟩
  · rintro ⟨text, whole, front, back, found, trims, rfl⟩
    refine ⟨whole, found, ?_⟩
    rw [trims.takeWhile_eq, trims.trim_eq]
    rfl

end Narrows

/-! ## Names with a colon -/

/-- A name in front of a colon: marks of a rest or block parameter, an identifier, and spaces. -/
structure HasKey (payload sigils name spaces rest : List Char) : Prop where
  split : payload = sigils ++ name ++ spaces ++ ':' :: rest
  marks : ∀ c ∈ sigils, c = '*' ∨ c = '&'
  ident : IsIdent isLowerStart name
  spaced : ∀ c ∈ spaces, c = ' '

section HasKey

variable {payload sigils name spaces rest : List Char}

/-- Behind the name of a key there is a space or the colon. -/
theorem HasKey.head?_spaces (keyed : HasKey payload sigils name spaces rest) :
    ∀ c ∈ (spaces ++ ':' :: rest).head?, isIdentChar c = false := by
  intro c first
  cases spaces with
  | nil =>
      obtain rfl : ':' = c := Option.some.inj first
      decide
  | cons space spaces =>
      obtain rfl : space = c := Option.some.inj first
      obtain rfl := keyed.spaced space List.mem_cons_self
      decide

/-- In front of the name of a key there are marks only. -/
theorem HasKey.head?_name (keyed : HasKey payload sigils name spaces rest) (text : List Char) :
    ∀ c ∈ (name ++ text).head?, (c = '*' || c = '&') = false := by
  obtain ⟨first, word, rfl, lower, -⟩ := keyed.ident
  intro c same
  obtain rfl : first = c := Option.some.inj same
  by_contra marked
  rw [Bool.not_eq_false, Bool.or_eq_true, decide_eq_true_eq, decide_eq_true_eq] at marked
  rcases marked with rfl | rfl
  · revert lower
    decide
  · revert lower
    decide

/-- A name with a colon is found by its length. -/
theorem HasKey.keyLength?_eq (keyed : HasKey payload sigils name spaces rest) :
    keyLength? payload = some ((sigils ++ name ++ spaces).length + 1) := by
  have nested : payload = sigils ++ (name ++ (spaces ++ ':' :: rest)) := by
    rw [keyed.split, List.append_assoc, List.append_assoc]
  have marks : ∀ c ∈ sigils, (c = '*' || c = '&') = true :=
    fun c member => by simpa using keyed.marks c member
  have word := keyed.ident.all fun _ => Char.isIdentChar_of_isLowerStart
  have lower : ((name ++ (spaces ++ ':' :: rest)).head?.map isLowerStart).getD false = true := by
    obtain ⟨first, word, rfl, lower, -⟩ := keyed.ident
    exact lower
  have blank : ∀ c ∈ spaces, decide (c = ' ') = true :=
    fun c member => decide_eq_true (keyed.spaced c member)
  have stop : ∀ c ∈ (':' :: rest).head?, decide (c = ' ') = false := by
    intro c first
    obtain rfl : ':' = c := Option.some.inj first
    decide
  unfold keyLength?
  simp only
  rw [nested, takeWhile_append marks (keyed.head?_name _),
    dropWhile_append marks (keyed.head?_name _), if_pos lower,
    takeWhile_append word keyed.head?_spaces, List.drop_left,
    takeWhile_append blank stop, List.drop_left, List.head?_cons, if_pos rfl,
    List.length_append, List.length_append]

/-- A text that starts with a lower case letter starts with an identifier. -/
theorem exists_ident_of_head? {text : List Char}
    (lower : (text.head?.map isLowerStart).getD false = true) :
    IsIdent isLowerStart (text.takeWhile isIdentChar) := by
  cases text with
  | nil => cases lower
  | cons c text =>
      have lower : isLowerStart c = true := lower
      rw [List.takeWhile_cons_of_pos (Char.isIdentChar_of_isLowerStart lower)]
      exact ⟨c, _, rfl, lower, List.all_eq_true.1 List.all_takeWhile⟩

/-- Only the length of a name with a colon is found. -/
theorem exists_keyed {length : Nat} (found : keyLength? payload = some length) :
    ∃ sigils name spaces rest, HasKey payload sigils name spaces rest ∧
      length = (sigils ++ name ++ spaces).length + 1 := by
  have marked : payload.dropWhile (fun c => c = '*' || c = '&') = withoutSigils payload := rfl
  unfold keyLength? at found
  simp only [drop_length_takeWhile, marked] at found
  split at found
  · rename_i lower
    split at found
    · rename_i colon
      obtain ⟨rest, after⟩ := List.head?_eq_some_iff.1 colon
      refine ⟨payload.takeWhile fun c => c = '*' || c = '&',
        (withoutSigils payload).takeWhile isIdentChar,
        ((withoutSigils payload).dropWhile isIdentChar).takeWhile (· = ' '), rest,
        ⟨?_, fun c member => ?_, exists_ident_of_head? lower, fun c member => ?_⟩, ?_⟩
      · rw [List.append_assoc, ← after, List.takeWhile_append_dropWhile, List.append_assoc,
          List.takeWhile_append_dropWhile, ← marked, List.takeWhile_append_dropWhile]
      · simpa using List.all_eq_true.1 List.all_takeWhile c member
      · simpa using List.all_eq_true.1 List.all_takeWhile c member
      · rw [← Option.some.inj found, List.length_append, List.length_append]
    · cases found
  · cases found

end HasKey

/-! ## Descriptions -/

/-- What stands in front of the first description, or everything if there is none. -/
inductive Undescribed (text : List Char) : List Char → Prop
  | described {shown note : List Char} : text = shown ++ descriptionMark ++ note →
      (∀ before after, text = before ++ descriptionMark ++ after → shown.length ≤ before.length) →
      Undescribed text shown
  | plain : (∀ before after, text ≠ before ++ descriptionMark ++ after) → Undescribed text text

theorem eq_split_of_isPrefixOf {mark text : List Char} (found : mark.isPrefixOf text = true) :
    ∃ note, text = mark ++ note :=
  let ⟨note, split⟩ := List.isPrefixOf_iff_prefix.1 found
  ⟨note, split.symm⟩

/-- The length of what is in front of the first description. -/
theorem exists_described {text : List Char} {length : Nat}
    (found : descriptionStart? text = some length) :
    ∃ shown note, text = shown ++ descriptionMark ++ note ∧ shown.length = length ∧
      ∀ before after, text = before ++ descriptionMark ++ after → length ≤ before.length := by
  induction text generalizing length with
  | nil => cases found
  | cons c text ih =>
      rw [descriptionStart?] at found
      split at found
      · rename_i here
        obtain ⟨note, split⟩ := eq_split_of_isPrefixOf here
        obtain rfl := Option.some.inj found
        exact ⟨[], note, split, rfl, fun _ _ _ => Nat.zero_le _⟩
      · rename_i notHere
        obtain ⟨less, later, rfl⟩ := Option.map_eq_some_iff.1 found
        obtain ⟨shown, note, rfl, rfl, first⟩ := ih later
        refine ⟨c :: shown, note, rfl, rfl, fun before after split => ?_⟩
        -- any other mark is not here either, so it is one in the rest
        cases before with
        | nil => exact absurd (by rw [split]; simp) notHere
        | cons b before => exact Nat.succ_le_succ (first before after (List.cons.inj split).2)

theorem ne_described {text : List Char} (missing : descriptionStart? text = none) :
    ∀ before after, text ≠ before ++ descriptionMark ++ after := by
  induction text with
  | nil => simp [descriptionMark]
  | cons c text ih =>
      rw [descriptionStart?] at missing
      split at missing
      · cases missing
      · rename_i notHere
        intro before after split
        cases before with
        | nil => exact absurd (by rw [split]; simp) notHere
        | cons b before =>
            exact ih (Option.map_eq_none_iff.1 missing) before after (List.cons.inj split).2

/-- The length of the text in front of a description. -/
theorem undescribed_iff {text shown : List Char} : Undescribed text shown ↔
    shown = (descriptionStart? text).elim text text.take := by
  cases start : descriptionStart? text with
  | none =>
      have plain := ne_described start
      refine ⟨fun undescribed => ?_, ?_⟩
      · cases undescribed with
        | described split _ => exact absurd split (plain _ _)
        | plain _ => rfl
      · rintro rfl
        exact .plain plain
  | some length =>
      obtain ⟨front, note, split, rfl, first⟩ := exists_described start
      have front_eq : text.take front.length = front := by
        rw [split, List.append_assoc, List.take_left]
      refine ⟨fun undescribed => ?_, ?_⟩
      · cases undescribed with
        | @described _ after split' first' =>
            -- both stand in front of the first mark
            have same : shown.length = front.length :=
              Nat.le_antisymm (first' front note split) (first shown after split')
            show shown = text.take front.length
            rw [← same, split', List.append_assoc, List.take_left]
        | plain plain => exact absurd split (plain _ _)
      · rintro rfl
        show Undescribed text (text.take front.length)
        rw [front_eq]
        exact .described split first

/-! ## Directives -/

/-- The word in front of type parameters, and a blank behind it. -/
def DeclaresGenerics (payload : List Char) : Prop :=
  ∃ blank rest, payload = "generic".toList ++ blank :: rest ∧ isBlank blank = true

/-- What a directive is, by what its text spells. -/
inductive Directive.Spelled (range : Range) (payload : List Char) : Directive → Prop
  | skip : payload = "skip".toList → Spelled range payload .skip
  | override : payload = "override".toList → Spelled range payload .override
  | generic : DeclaresGenerics payload →
      Spelled range payload (.generic ⟨range.start + "generic".toList.length, range.stop⟩)
  | typed {sigils name spaces rest shown : List Char} {start : Nat} :
      ¬ DeclaresGenerics payload → HasKey payload sigils name spaces rest →
      Undescribed rest shown → start = range.start + (sigils ++ name ++ spaces).length + 1 →
      Spelled range payload (.typed (sigils ++ name) ⟨start, start + shown.length⟩)
  | overloads {mark : Char} {rest : List Char} : payload = mark :: rest →
      mark ∈ methodTypeMarks → Spelled range payload .overloads
  | unknown : payload ≠ "skip".toList → payload ≠ "override".toList →
      ¬ DeclaresGenerics payload → (∀ sigils name spaces rest,
        ¬ HasKey payload sigils name spaces rest) →
      (∀ mark ∈ payload.head?, mark ∉ methodTypeMarks) → Spelled range payload .unknown

theorem declaresGenerics_iff {payload : List Char} : DeclaresGenerics payload ↔
    ("generic".toList.isPrefixOf payload &&
      ((payload.drop "generic".toList.length).head?.map isBlank).getD false) = true := by
  rw [Bool.and_eq_true]
  constructor
  · rintro ⟨blank, rest, rfl, spaced⟩
    exact ⟨by simp, spaced⟩
  · rintro ⟨word, spaced⟩
    obtain ⟨after, rfl⟩ := eq_split_of_isPrefixOf word
    rw [List.drop_left] at spaced
    cases after with
    | nil => cases spaced
    | cons blank rest => exact ⟨blank, rest, rfl, spaced⟩

namespace HasKey

variable {payload sigils name spaces rest : List Char}
  (keyed : HasKey payload sigils name spaces rest)

include keyed

/-- The name in front of the colon is read without the spaces behind it. -/
theorem trimEnd_take :
    trimEnd (payload.take (sigils ++ name ++ spaces).length) = sigils ++ name := by
  rw [keyed.split, List.take_left]
  refine trimEnd_append_of_stop ?_ fun c last => ?_
  · refine List.all_eq_true.2 fun c member => ?_
    obtain rfl := keyed.spaced c member
    decide
  · have nonempty : name ≠ [] := by
      obtain ⟨first, word, rfl, -, -⟩ := keyed.ident
      exact List.cons_ne_nil _ _
    rw [List.getLast?_append_of_ne_nil _ nonempty] at last
    have ident := keyed.ident.all (fun _ => Char.isIdentChar_of_isLowerStart) c
      (List.mem_of_getLast? last)
    exact Grammar.Inky.isIdentChar c ident

theorem drop_eq : payload.drop ((sigils ++ name ++ spaces).length + 1) = rest := by
  rw [keyed.split, ← List.drop_drop, List.drop_left]
  rfl

/-- The text ends with what is behind the colon. -/
theorem stop_eq {range : Range} (length : range.stop = range.start + payload.length) :
    range.stop = range.start + ((sigils ++ name ++ spaces).length + 1) + rest.length := by
  rw [length, keyed.split, List.length_append, List.length_cons]
  omega

/-- A word without a colon is no name with one. -/
theorem ne_word {word : List Char} (plain : ':' ∉ word) : payload ≠ word := by
  rintro rfl
  refine plain ?_
  rw [keyed.split]
  simp

/-- A list of method types starts with another mark. -/
theorem not_mem_methodTypeMarks : ∀ mark ∈ payload.head?, mark ∉ methodTypeMarks := by
  intro mark first
  rw [keyed.split] at first
  cases sigils with
  | cons sigil sigils =>
      obtain rfl : sigil = mark := Option.some.inj first
      rcases keyed.marks sigil List.mem_cons_self with rfl | rfl
      · decide
      · decide
  | nil =>
      obtain ⟨letter, word, rfl, lower, -⟩ := keyed.ident
      obtain rfl : letter = mark := Option.some.inj first
      intro marked
      revert lower
      simp only [methodTypeMarks, List.mem_cons, List.not_mem_nil, or_false] at marked
      rcases marked with rfl | rfl | rfl | rfl | rfl | rfl <;> decide

end HasKey

theorem keyLength?_eq_none {payload : List Char}
    (noKey : ∀ sigils name spaces rest, ¬ HasKey payload sigils name spaces rest) :
    keyLength? payload = none := by
  cases found : keyLength? payload with
  | none => rfl
  | some length =>
      obtain ⟨sigils, name, spaces, rest, keyed, -⟩ := exists_keyed found
      exact absurd keyed (noKey _ _ _ _)

/-- Whether a text starts like a list of method types. -/
theorem marked_iff {payload : List Char} :
    (payload.head?.map methodTypeMarks.contains).getD false = true ↔
      ∃ mark rest, payload = mark :: rest ∧ mark ∈ methodTypeMarks := by
  cases payload with
  | nil => simp
  | cons mark rest => simp

section Spelled

variable {range : Range} {payload : List Char} {directive : Directive}

theorem ofPayload_of_declaresGenerics (declares : DeclaresGenerics payload) :
    Directive.ofPayload range payload =
      .generic ⟨range.start + "generic".toList.length, range.stop⟩ := by
  have word := declaresGenerics_iff.1 declares
  obtain ⟨blank, rest, split, -⟩ := declares
  unfold Directive.ofPayload
  simp only
  rw [if_neg (by rw [split]; exact nofun), if_neg (by rw [split]; exact nofun), if_pos word]

/-- A text that is none of the words is read as a key, as a list of method types, or not at all. -/
theorem ofPayload_of_not_word (noSkip : payload ≠ "skip".toList)
    (noOverride : payload ≠ "override".toList) (noGenerics : ¬ DeclaresGenerics payload) :
    Directive.ofPayload range payload = (keyLength? payload).elim
      (if (payload.head?.map methodTypeMarks.contains).getD false then .overloads else .unknown)
      fun length => .typed (trimEnd (payload.take (length - 1)))
        ⟨range.start + length, (descriptionStart? (payload.drop length)).elim range.stop
          (range.start + length + ·)⟩ := by
  unfold Directive.ofPayload
  simp only
  refine (if_neg noSkip).trans ((if_neg noOverride).trans
    ((if_neg (mt declaresGenerics_iff.2 noGenerics)).trans ?_))
  cases keyLength? payload with
  | none => rfl
  | some length =>
      simp only [Option.elim_some]
      cases descriptionStart? (payload.drop length) <;> rfl

/-- What is selected in front of a description is what is there. -/
theorem stop_of_undescribed {rest shown : List Char} (undescribed : Undescribed rest shown)
    {start stop : Nat} (stop_eq : stop = start + rest.length) :
    (descriptionStart? rest).elim stop (start + ·) = start + shown.length := by
  have shown_eq := undescribed_iff.1 undescribed
  cases described : descriptionStart? rest with
  | none =>
      rw [described] at shown_eq
      rw [shown_eq]
      exact stop_eq
  | some before =>
      rw [described] at shown_eq
      obtain ⟨front, note, rfl, rfl, -⟩ := exists_described described
      have front_eq : shown = front := by
        rw [shown_eq, Option.elim_some, List.append_assoc, List.take_left]
      rw [front_eq, Option.elim_some]

/-- What a text spells is the only directive that it is read as. -/
theorem Directive.Spelled.ofPayload_eq (spelled : directive.Spelled range payload)
    (length : range.stop = range.start + payload.length) :
    Directive.ofPayload range payload = directive := by
  cases spelled with
  | skip same | override same =>
      rw [same]
      rfl
  | generic declares => exact ofPayload_of_declaresGenerics declares
  | @typed sigils name spaces rest shown start noGenerics keyed undescribed start_eq =>
      rw [ofPayload_of_not_word (keyed.ne_word (by decide)) (keyed.ne_word (by decide))
        noGenerics, keyed.keyLength?_eq, Option.elim_some]
      rw [keyed.drop_eq, Nat.add_sub_cancel, keyed.trimEnd_take,
        stop_of_undescribed undescribed (keyed.stop_eq length), start_eq]
      rfl
  | @overloads mark rest split marked =>
      -- the first character rules out the words and a name
      have other : ∀ {c : Char}, c ∉ methodTypeMarks → payload.head? ≠ some c := by
        intro c plain first
        rw [split] at first
        obtain rfl : mark = c := Option.some.inj first
        exact plain marked
      rw [ofPayload_of_not_word (fun same => other (c := 's') (by decide) (by rw [same]; rfl))
        (fun same => other (c := 'o') (by decide) (by rw [same]; rfl))
        (fun ⟨_, _, same, _⟩ => other (c := 'g') (by decide) (by rw [same]; rfl)),
        keyLength?_eq_none fun _ _ _ _ keyed =>
          keyed.not_mem_methodTypeMarks mark (by rw [split]; rfl) marked]
      exact if_pos (marked_iff.2 ⟨mark, rest, split, marked⟩)
  | unknown noSkip noOverride noGenerics noKey noMark =>
      rw [ofPayload_of_not_word noSkip noOverride noGenerics, keyLength?_eq_none noKey,
        Option.elim_none]
      refine if_neg fun marks => ?_
      obtain ⟨mark, rest, rfl, marked⟩ := marked_iff.1 marks
      exact noMark mark rfl marked

/-- What a text is read as is spelled in it. -/
theorem spelled_ofPayload (length : range.stop = range.start + payload.length) :
    (Directive.ofPayload range payload).Spelled range payload := by
  by_cases skip : payload = "skip".toList
  · rw [skip]
    exact .skip rfl
  by_cases override : payload = "override".toList
  · rw [override]
    exact .override rfl
  by_cases generics : DeclaresGenerics payload
  · rw [ofPayload_of_declaresGenerics generics]
    exact .generic generics
  rw [ofPayload_of_not_word skip override generics]
  cases found : keyLength? payload with
  | some key =>
      obtain ⟨sigils, name, spaces, rest, keyed, rfl⟩ := exists_keyed found
      have undescribed : Undescribed rest _ := undescribed_iff.2 rfl
      rw [Option.elim_some, keyed.drop_eq, Nat.add_sub_cancel, keyed.trimEnd_take,
        stop_of_undescribed undescribed (keyed.stop_eq length)]
      exact .typed generics keyed undescribed rfl
  | none =>
      have noKey : ∀ sigils name spaces rest, ¬ HasKey payload sigils name spaces rest := by
        intro sigils name spaces rest keyed
        rw [keyed.keyLength?_eq] at found
        cases found
      rw [Option.elim_none]
      split
      · rename_i marks
        obtain ⟨mark, rest, split, marked⟩ := marked_iff.1 marks
        exact .overloads split marked
      · rename_i noMark
        refine .unknown skip override generics noKey fun mark first marked => noMark ?_
        obtain ⟨rest, split⟩ := List.head?_eq_some_iff.1 first
        exact marked_iff.2 ⟨mark, rest, split, marked⟩

/-- A directive is what its text spells. -/
theorem spelled_iff (length : range.stop = range.start + payload.length) :
    directive.Spelled range payload ↔ Directive.ofPayload range payload = directive :=
  ⟨fun spelled => spelled.ofPayload_eq length, fun same => same ▸ spelled_ofPayload length⟩

end Spelled

end Inline

end Signet
