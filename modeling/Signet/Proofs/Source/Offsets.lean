import Mathlib.Order.Bounds.Defs
import Signet.Proofs.Source.Spans

/-!
# Bytes and characters

Each position of a text has a byte, and each byte is rounded to a position. The two conversions are
halves of a Galois connection (`Text.byteOfChar_le_iff`): from a position to its byte and back
nothing changes, and from a byte to its position and back it is rounded down to where a character
begins (`Text.isGreatest_byteOfChar`). A slice has the bytes between those of its ends, and slices
join where they meet (`Buffer.offsets_agree`).
-/

namespace Signet

namespace Text

variable {text : List Char} {pos start middle stop byte first second : Nat}

theorem utf8ByteSize_ofList (text : List Char) :
    (String.ofList text).utf8ByteSize = byteLength text :=
  size_utf8Encode text

/-- A character begins at the byte, or the text ends there: the bytes in front of it are whole
characters. -/
def Boundary (text : List Char) (byte : Nat) : Prop :=
  String.Pos.Raw.IsValid (String.ofList text) ⟨byte⟩

/-- The boundaries are the bytes of the positions. -/
theorem boundary_iff :
    Boundary text byte ↔ ∃ pos, pos ≤ text.length ∧ byteOfChar text pos = byte := by
  rw [Boundary, String.Pos.Raw.isValid_ofList]
  constructor
  · rintro ⟨pos, reached⟩
    have reached : byte = byteLength (text.take pos) := reached.trans (utf8ByteSize_ofList _)
    refine ⟨min pos text.length, Nat.min_le_right .., ?_⟩
    rw [reached, byteOfChar, ← List.take_eq_take_min]
  · rintro ⟨pos, -, rfl⟩
    exact ⟨pos, (utf8ByteSize_ofList _).symm⟩

/-! ## The connection -/

/-- Later bytes belong to later characters, or to the same one. -/
theorem charOfByte_mono (text : List Char) (le : first ≤ second) :
    charOfByte text first ≤ charOfByte text second :=
  (byteOfChar_le_iff (charOfByte_le text first)).1
    (Nat.le_trans (byteOfChar_charOfByte_le text first) le)

theorem byteOfChar_le_byteLength (within : pos ≤ text.length) :
    byteOfChar text pos ≤ byteLength text := by
  have last := byteOfChar_mono text within
  rwa [byteOfChar, byteOfChar, List.take_length] at last

/-- A byte is rounded down to the last boundary that is not behind it. -/
theorem isGreatest_byteOfChar (text : List Char) (byte : Nat) :
    IsGreatest {boundary | Boundary text boundary ∧ boundary ≤ min byte (byteLength text)}
      (byteOfChar text (charOfByte text byte)) := by
  have within := charOfByte_le text byte
  constructor
  · refine ⟨boundary_iff.2 ⟨_, within, rfl⟩, Nat.le_min.2 ⟨?_, byteOfChar_le_byteLength within⟩⟩
    exact byteOfChar_charOfByte_le text byte
  · rintro boundary ⟨valid, le⟩
    obtain ⟨pos, inside, rfl⟩ := boundary_iff.1 valid
    exact byteOfChar_mono text ((byteOfChar_le_iff inside).1 (Nat.le_min.1 le).1)

theorem byteOfChar_length_append (front back : List Char) :
    byteOfChar (front ++ back) front.length = byteLength front := by
  rw [byteOfChar, List.take_left]

/-- Behind some characters, the position is their number. -/
theorem charOfByte_byteLength_append (front back : List Char) :
    charOfByte (front ++ back) (byteLength front) = front.length := by
  rw [← byteOfChar_length_append front back, charOfByte_byteOfChar (by simp)]

/-! ## Slices -/

/-- Characters up to a position and from there on. -/
theorem extract_append_extract (text : List Char) (le : start ≤ middle) (further : middle ≤ stop) :
    text.extract start middle ++ text.extract middle stop = text.extract start stop := by
  have whole := take_eq_append text (Nat.le_trans le further)
  rw [take_eq_append text further, take_eq_append text le, List.append_assoc] at whole
  exact List.append_cancel_left whole

end Text

namespace Buffer

open Text

variable {buffer : Buffer} {range : Range} {pos byte start middle stop : Nat}
  {text front back : List Char}

/-- Positions and bytes of the buffer are halves of a Galois connection. -/
structure Converts (buffer : Buffer) : Prop where
  /-- A position has a byte, and the byte has the position. -/
  charOfByte_eq : ∀ pos, pos ≤ buffer.length →
    ∃ byte, buffer.byteOfChar pos = .ok byte ∧ buffer.charOfByte byte = pos
  /-- No other position has a byte. -/
  refused : ∀ pos, buffer.length < pos →
    buffer.byteOfChar pos = .error (.outOfRange buffer.name pos buffer.length)
  byte_lt : ∀ pos later first last, buffer.byteOfChar pos = .ok first →
    buffer.byteOfChar later = .ok last → pos < later → first < last
  char_le : ∀ first last, first ≤ last → buffer.charOfByte first ≤ buffer.charOfByte last
  le_iff : ∀ pos start byte, buffer.byteOfChar pos = .ok start →
    (start ≤ byte ↔ pos ≤ buffer.charOfByte byte)
  /-- A byte is rounded down to where a character begins, and one behind the end to the end. -/
  rounded : ∀ byte, ∃ start, buffer.byteOfChar (buffer.charOfByte byte) = .ok start ∧
    IsGreatest {boundary | Boundary buffer.content boundary ∧
      boundary ≤ min byte (String.ofList buffer.content).utf8ByteSize} start

/-- Slices are cut out of the content. -/
structure Slices (buffer : Buffer) : Prop where
  admitted_iff : ∀ range, (∃ text, buffer.slice range = .ok text) ↔
    range.start ≤ range.stop ∧ range.stop ≤ buffer.length
  length_eq : ∀ range text, buffer.slice range = .ok text →
    text.length = range.stop - range.start
  join : ∀ start middle stop front back, buffer.slice ⟨start, middle⟩ = .ok front →
    buffer.slice ⟨middle, stop⟩ = .ok back → buffer.slice ⟨start, stop⟩ = .ok (front ++ back)
  all_eq : buffer.slice buffer.all = .ok buffer.content
  /-- The bytes of a slice are those between the bytes of its ends. -/
  bytes_eq : ∀ range text, buffer.slice range = .ok text → ∃ first last,
    buffer.byteOfChar range.start = .ok first ∧ buffer.byteOfChar range.stop = .ok last ∧
      buffer.content.utf8Encode.extract first last = text.utf8Encode

theorem byteOfChar_eq_ok (within : pos ≤ buffer.length) :
    buffer.byteOfChar pos = .ok (Text.byteOfChar buffer.content pos) :=
  byteOfChar_eq_ok_iff.2 ⟨within, rfl⟩

theorem converts (buffer : Buffer) : buffer.Converts where
  charOfByte_eq := fun pos within => ⟨_, byteOfChar_eq_ok within, charOfByte_byteOfChar within⟩
  refused := by
    intro pos behind
    rw [byteOfChar, getElem?_charOffsets_of_length_lt behind]
  byte_lt := by
    intro pos later first last here there lt
    obtain ⟨-, rfl⟩ := byteOfChar_eq_ok_iff.1 here
    obtain ⟨within, rfl⟩ := byteOfChar_eq_ok_iff.1 there
    exact byteOfChar_lt lt within
  char_le := fun _ _ => charOfByte_mono buffer.content
  le_iff := by
    intro pos start byte here
    obtain ⟨within, rfl⟩ := byteOfChar_eq_ok_iff.1 here
    exact byteOfChar_le_iff within
  rounded := by
    intro byte
    rw [utf8ByteSize_ofList]
    exact ⟨_, byteOfChar_eq_ok (charOfByte_le ..), isGreatest_byteOfChar buffer.content byte⟩

theorem slices (buffer : Buffer) : buffer.Slices where
  admitted_iff := by
    intro range
    rw [← range.fits_iff]
    exact ⟨fun ⟨_, cut⟩ => ((buffer.slice_eq_ok_iff ..).1 cut).1, fun fits => ⟨_, slice_eq_ok fits⟩⟩
  length_eq := by
    intro range text cut
    obtain ⟨fits, rfl⟩ := (buffer.slice_eq_ok_iff ..).1 cut
    exact length_extract fits
  join := by
    intro start middle stop front back one two
    obtain ⟨fitsOne, rfl⟩ := (buffer.slice_eq_ok_iff ..).1 one
    obtain ⟨fitsTwo, rfl⟩ := (buffer.slice_eq_ok_iff ..).1 two
    obtain ⟨le, -⟩ := (Range.fits_iff _ _).1 fitsOne
    obtain ⟨further, within⟩ := (Range.fits_iff _ _).1 fitsTwo
    have fits : buffer.contains ⟨start, stop⟩ = true :=
      (Range.fits_iff _ _).2 ⟨Nat.le_trans le further, within⟩
    rw [slice_eq_ok fits, extract_append_extract _ le further]
  all_eq := buffer.slice_all
  bytes_eq := by
    intro range text cut
    obtain ⟨fits, rfl⟩ := (buffer.slice_eq_ok_iff ..).1 cut
    obtain ⟨le, within⟩ := (range.fits_iff _).1 fits
    exact ⟨_, _, byteOfChar_eq_ok (Nat.le_trans le within), byteOfChar_eq_ok within,
      extract_utf8Encode buffer.content le⟩

/-- The text at some bytes is that of the characters at its ends. -/
theorem extract_of_textAtBytes? {bytes : Range} (found : buffer.textAtBytes? bytes = some text) :
    buffer.content.extract (buffer.charOfByte bytes.start) (buffer.charOfByte bytes.stop) =
      text := by
  simp only [textAtBytes?, Option.ite_none_right_eq_some, Option.some.injEq] at found
  exact found.2

/-- The text at some bytes is the one that has them. -/
theorem textAtBytes?_eq_some_iff (buffer : Buffer) (bytes : Range) (text : List Char) :
    buffer.textAtBytes? bytes = some text ↔ ∃ front back, buffer.content = front ++ text ++ back ∧
      bytes = ⟨byteLength front, byteLength (front ++ text)⟩ := by
  constructor
  · intro found
    simp only [textAtBytes?, Bool.and_eq_true, decide_eq_true_eq, Option.ite_none_right_eq_some,
      Option.some.injEq] at found
    obtain ⟨⟨⟨le, start_eq⟩, stop_eq⟩, rfl⟩ := found
    have ends_le : buffer.charOfByte bytes.start ≤ buffer.charOfByte bytes.stop :=
      charOfByte_mono _ le
    refine ⟨buffer.content.take (buffer.charOfByte bytes.start),
      buffer.content.drop (buffer.charOfByte bytes.stop), ?_, ?_⟩
    · rw [← take_eq_append _ ends_le, List.take_append_drop]
    · rw [← take_eq_append _ ends_le]
      exact congrArg₂ Range.mk start_eq.symm stop_eq.symm
  · rintro ⟨front, back, content_eq, rfl⟩
    -- The bytes of a text end where its characters do.
    have start_eq : buffer.charOfByte (byteLength front) = front.length := by
      rw [charOfByte, content_eq, List.append_assoc, charOfByte_byteLength_append]
    have stop_eq : buffer.charOfByte (byteLength (front ++ text)) = (front ++ text).length := by
      rw [charOfByte, content_eq, charOfByte_byteLength_append]
    have first : Text.byteOfChar buffer.content front.length = byteLength front := by
      rw [content_eq, List.append_assoc, byteOfChar_length_append]
    have last : Text.byteOfChar buffer.content (front ++ text).length =
        byteLength (front ++ text) := by
      rw [content_eq, byteOfChar_length_append]
    have cut : buffer.content.extract front.length (front ++ text).length = text := by
      simp [content_eq]
    simp only [textAtBytes?, start_eq, stop_eq, first, last, cut]
    simp

/-- Positions and bytes agree on where the characters of a buffer are, and so do its slices. -/
theorem offsets_agree (buffer : Buffer) : buffer.Converts ∧ buffer.Slices :=
  ⟨buffer.converts, buffer.slices⟩

/-- Characters of two bytes, of three and of one. -/
example : (List.range 9).map (ofString "a.rb" "é日\na").charOfByte =
    [0, 0, 1, 1, 1, 2, 3, 4, 4] := by
  decide

end Buffer

end Signet
