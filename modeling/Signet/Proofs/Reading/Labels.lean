import Signet.Proofs.Grammar.Stops
import Signet.Proofs.Reading.Carved
import Signet.Proofs.Source.Spans

/-!
# Labels of syntax errors

A text that is not grammatical is refused with a label. It starts at the character where the text
stops being grammatical, which is neither a blank nor a line end that joins two ranges, so its bytes
are those of one character of the file (`Buffer.Built.topByte_succ`). The label ends at the next
byte of the text, rounded down to a character (`charOfByte_byteOfChar_succ`): hence it covers a
character of one byte and is empty at all others (`readers_label`).
-/

namespace Signet

open Text Grammar

variable {buffer : Buffer} {range : Range} {pos : Nat} {offending : Option Char} {span : Span}

/-! ## The next byte -/

/-- How many characters a label at a character has; at the end of a text there is none. -/
def labelled : Option Char → Nat
  | some c => if c.utf8Size = 1 then 1 else 0
  | none => 0

/-- The next byte is that of the next character only if the character has one byte. -/
theorem Text.charOfByte_byteOfChar_succ {text : List Char} (le : pos ≤ text.length) :
    charOfByte text (byteOfChar text pos + 1) = pos + labelled text[pos]? := by
  have behind : charOfByte text (byteOfChar text pos + 1) = pos + charOfByte (text.drop pos) 1 :=
    calc charOfByte text (byteLength (text.take pos) + 1)
        = charOfByte (text.take pos ++ text.drop pos) (byteLength (text.take pos) + 1) :=
          congrArg (charOfByte · _) (List.take_append_drop pos text).symm
      _ = pos + charOfByte (text.drop pos) 1 := by
          rw [charOfByte_append, List.length_take_of_le le]
  rw [behind, ← List.head?_drop]
  cases text.drop pos with
  | nil => rfl
  | cons c rest =>
      have positive := c.utf8Size_pos
      rw [charOfByte_cons, List.head?_cons, labelled]
      by_cases single : c.utf8Size = 1
      · rw [if_neg (by omega), if_pos single, single, Nat.sub_self, charOfByte_zero]
      · rw [if_pos (by omega), if_neg single]

/-! ## Labels -/

/-- The span starts at the position and covers the character that stands there in the file. At the
end of a text none stands there, and the span is empty. -/
structure CoversChar (buffer : Buffer) (pos : Nat) (offending : Option Char) (span : Span) :
    Prop where
  starts : buffer.ByteAt pos span.offset
  length_eq : span.length = byteLength offending.toList
  bytes_eq : buffer.top.content.utf8Encode.extract span.offset (span.offset + span.length) =
    offending.toList.utf8Encode

/-- The span starts at the position, and it covers the character there exactly if that has one
byte. Otherwise it is empty. -/
structure LabelAt (buffer : Buffer) (pos : Nat) (offending : Option Char) (span : Span) :
    Prop where
  starts : buffer.ByteAt pos span.offset
  length_eq : span.length = labelled offending
  covers_iff : CoversChar buffer pos offending span ↔ ∀ c, offending = some c → c.utf8Size = 1

/-- If the range is not grammatical, then this is refused, with a label where the range stops being
so. -/
def RefusesAtStop {α : Type} (rule : Rule) (buffer : Buffer) (range : Range)
    (outcome : Except ParseError α) : Prop :=
  let text := buffer.content.extract range.start range.stop
  ∀ stop, parse rule text = .error stop → ∃ span,
    outcome = .error (.refused (.unexpectedInput stop.expected) span) ∧
      LabelAt buffer (range.start + stop.pos) text[stop.pos]? span ∧
      (text[stop.pos]? = none → range.start + stop.pos = range.stop)

/-- A label at a character, or at the end of the text. -/
theorem labels_between (built : buffer.Built) (within : pos ≤ buffer.length)
    (there : ∀ c, offending = some c → buffer.content[pos]? = some c ∧ c ≠ '\n') :
    LabelAt buffer pos offending
      (.between (buffer.topByte pos) (buffer.topByte (pos + labelled offending))) := by
  have starts := built.byteAt_topByte within
  cases offending with
  | none =>
      rw [labelled, Nat.add_zero, Span.between_self]
      have nothing : buffer.top.content.utf8Encode.extract (buffer.topByte pos)
          (buffer.topByte pos + 0) = ByteArray.empty :=
        ByteArray.extract_eq_empty_iff.2 (Nat.min_le_left _ _)
      exact ⟨starts, rfl, iff_of_true ⟨starts, rfl, nothing⟩ nofun⟩
  | some c =>
      obtain ⟨found, solid⟩ := there c rfl
      obtain ⟨next, bytes⟩ := built.topByte_succ found solid
      have positive := c.utf8Size_pos
      by_cases single : c.utf8Size = 1
      · rw [labelled, if_pos single]
        have reached := Span.offset_add_length_between
          (show buffer.topByte pos ≤ buffer.topByte (pos + 1) by omega)
        have long : (Span.between (buffer.topByte pos) (buffer.topByte (pos + 1))).length = 1 := by
          show buffer.topByte (pos + 1) - buffer.topByte pos = 1
          omega
        refine ⟨starts, long.trans (if_pos single).symm, iff_of_true ⟨starts, ?_, ?_⟩ ?_⟩
        · exact long.trans single.symm
        · rw [reached]
          exact bytes
        · exact fun other same => Option.some.inj same ▸ single
      · -- The next byte is one of the same character.
        rw [labelled, if_neg single, Nat.add_zero, Span.between_self]
        refine ⟨starts, (if_neg single).symm, iff_of_false ?_ fun all => single (all c rfl)⟩
        intro covers
        have length : 0 = c.utf8Size + 0 := covers.length_eq
        omega

/-- A range that is not grammatical is refused with a label where it stops being so. -/
theorem readRange_refusesAtStop {α : Type} {rule : Rule}
    (whole : rule ∈ [.document, .wholeType, .wholeMethodTypes, .wholeTypeParams])
    (built : buffer.Built) (contains : buffer.contains range = true)
    (meaning : Excerpt → ParseTree → Except Fault α) :
    RefusesAtStop rule buffer range (readRange rule buffer range meaning) := by
  intro stop failed
  obtain ⟨le, within⟩ := (Buffer.contains_iff _ _).1 contains
  have size : (buffer.content.extract range.start range.stop).length = range.length :=
    Buffer.length_extract contains
  have length : range.length = range.stop - range.start := rfl
  have before := parse_stop_le failed
  -- The label is from the byte where the text stops being grammatical to the next byte.
  have refused : readRange rule buffer range meaning = .error (Excerpt.unexpected
      ⟨buffer, range.start, buffer.content.extract range.start range.stop⟩ stop) := by
    rw [readRange, Excerpt.ofRange_eq_ok contains]
    simp only [Excerpt.read, failed]
  refine ⟨_, refused, ?_, ?_⟩
  · rw [Text.charOfByte_byteOfChar_succ before, ← Nat.add_assoc]
    refine labels_between built ?_ ?_
    · show _ ≤ buffer.content.length
      omega
    · intro c found
      have inside := (List.getElem?_eq_some_iff.1 found).1
      have solid := parse_stop_solid whole failed c (by rw [List.head?_drop]; exact found)
      refine ⟨?_, fun newline => ?_⟩
      · rw [List.extract_eq_take_drop, List.getElem?_take, if_pos (by omega),
          List.getElem?_drop] at found
        exact found
      · rw [newline] at solid
        exact absurd solid.1 (by decide)
  · intro none
    have := List.getElem?_eq_none_iff.1 none
    omega

/-- Whatever is read, a text that is not grammatical is refused with a label where it stops being
so. The label starts with the character there, and covers it exactly if it has one byte. -/
theorem readers_label (built : buffer.Built) (contains : buffer.contains range = true)
    (scope : List String) (text : String) :
    RefusesAtStop .wholeType buffer range (readType buffer range scope) ∧
      RefusesAtStop .wholeMethodTypes buffer range (readOverloads buffer range scope) ∧
      RefusesAtStop .wholeTypeParams buffer range (readGenerics buffer range scope) ∧
      RefusesAtStop .document buffer buffer.all (readSignature buffer) ∧
      RefusesAtStop .wholeType (.ofString "(type)" text) (Buffer.ofString "(type)" text).all
        (Ty.ofString text) ∧
      RefusesAtStop .wholeMethodTypes (.ofString "(method type)" text)
        (Buffer.ofString "(method type)" text).all (MethodType.ofString text) := by
  refine ⟨readRange_refusesAtStop (by decide) built contains _,
    readRange_refusesAtStop (by decide) built contains _,
    readRange_refusesAtStop (by decide) built contains _,
    readRange_refusesAtStop (by decide) built buffer.contains_all _,
    readRange_refusesAtStop (by decide) (.file ..) (Buffer.contains_all _) _, ?_⟩
  -- A single method type is read as a list of overloads.
  intro stop failed
  obtain ⟨span, refused, labels⟩ := readRange_refusesAtStop (by decide) (.file ..)
    (Buffer.contains_all _) (fun excerpt tree => readMethodTypes excerpt [] tree.children)
    stop failed
  refine ⟨span, ?_, labels⟩
  have read : readOverloads (.ofString "(method type)" text)
      (Buffer.ofString "(method type)" text).all [] = .error _ := refused
  rw [MethodType.ofString, read]
  rfl

/-- Method types on two lines of a file with a character of several bytes in front. The second line
does not go on with a type, and the label covers the bracket that stands there instead. -/
theorem readers_label_lines :
    ∃ child, (Buffer.ofString "a.rb" "é #: () ->\n#: ]").carve [⟨5, 10⟩, ⟨14, 15⟩] = .ok child ∧
      child.Built ∧ child.contains child.all = true ∧
      RefusesAtStop .wholeMethodTypes child child.all (readOverloads child child.all []) ∧
      readOverloads child child.all [] =
        .error (.refused (.unexpectedInput [.optionalType]) ⟨15, 1⟩) ∧
      CoversChar child 6 (some ']') ⟨15, 1⟩ := by
  let file := Buffer.ofString "a.rb" "é #: () ->\n#: ]"
  let child := file.carved [⟨5, 10⟩, ⟨14, 15⟩]
  let text := child.content.extract child.all.start child.all.stop
  have carved : file.carve [⟨5, 10⟩, ⟨14, 15⟩] = .ok child := rfl
  have built : child.Built := .carve (.file ..) carved
  have contains : child.contains child.all = true := by decide
  have refuses := (readers_label built contains [] "").2.1
  have fails : ∃ stop, parse .wholeMethodTypes text = .error stop ∧ stop.pos = 6 := by
    decide +kernel
  have outcome : ∃ error, readOverloads child child.all [] = .error error ∧
      error = .refused (.unexpectedInput [.optionalType]) ⟨15, 1⟩ := by decide +kernel
  have there : text[6]? = some ']' := by decide
  obtain ⟨stop, failed, pos⟩ := fails
  obtain ⟨_, outcome, rfl⟩ := outcome
  obtain ⟨span, refused, labels, -⟩ := refuses stop failed
  obtain ⟨-, rfl⟩ := ParseError.refused.inj (Except.error.inj (outcome.symm.trans refused))
  rw [pos, there] at labels
  exact ⟨child, carved, built, contains, refuses, outcome,
    labels.covers_iff.2 fun c same => Option.some.inj same ▸ rfl⟩

/-- The label of a character of two bytes is empty. -/
theorem label_misses_wide_character :
    ∃ stop error, parse .wholeType "Array[é]".toList = .error stop ∧ stop.pos = 6 ∧
      "Array[é]".toList[6]? = some 'é' ∧ Ty.ofString "Array[é]" = .error error ∧
      error = .refused (.unexpectedInput stop.expected) ⟨6, 0⟩ ∧
      ¬ CoversChar (.ofString "(type)" "Array[é]") 6 (some 'é') ⟨6, 0⟩ := by
  have fails : ∃ stop, parse .wholeType "Array[é]".toList = .error stop ∧ stop.pos = 6 ∧
      stop.expected = [.optionalType] := by decide +kernel
  have refused : ∃ error, Ty.ofString "Array[é]" = .error error ∧
      error = .refused (.unexpectedInput [.optionalType]) ⟨6, 0⟩ := by decide +kernel
  obtain ⟨stop, failed, pos, expected⟩ := fails
  obtain ⟨error, outcome, same⟩ := refused
  refine ⟨stop, error, failed, pos, by decide, outcome, expected ▸ same, fun covers => ?_⟩
  have length : 0 = 2 := covers.length_eq
  cases length

end Signet
