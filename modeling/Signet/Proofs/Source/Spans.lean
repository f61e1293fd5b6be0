import Mathlib.Data.List.Chain
import Signet.Proofs.Source.Carving
import Signet.Source.Location

/-!
# Spans of carved buffers

A position of a buffer has a byte in the file (`Buffer.ByteAt`), by way of its position in the file.
If the ranges of each carved buffer are in order, then so are the positions that they are taken to
(`Buffer.Ordered.absolute_mono`), and a span reaches from the byte of the start of a location to
that of its stop. Between two separators the characters of a buffer are neighbours in the file too
(`Buffer.Built.contiguous`), and there the bytes of the span are the text of the location.
-/

namespace Signet

/-! ## Bytes of a text -/

namespace Text

variable {text : List Char} {start stop : Nat}

theorem size_utf8Encode (text : List Char) : text.utf8Encode.size = byteLength text := by
  induction text with
  | nil => rfl
  | cons c text ih =>
      rw [List.utf8Encode_cons, ByteArray.size_append, ih, List.utf8Encode_singleton,
        List.size_toByteArray, String.length_utf8EncodeChar, byteLength]

theorem extract_succ {c : Char} (found : text[start]? = some c) :
    text.extract start (start + 1) = [c] := by
  obtain ⟨inside, rfl⟩ := List.getElem?_eq_some_iff.1 found
  rw [List.extract_eq_take_drop, Nat.add_sub_cancel_left, List.drop_eq_getElem_cons inside]
  rfl

/-- The bytes between those of two positions are the bytes of the text between the positions. -/
theorem extract_utf8Encode (text : List Char) (le : start ≤ stop) :
    text.utf8Encode.extract (byteOfChar text start) (byteOfChar text stop) =
      (text.extract start stop).utf8Encode := by
  have first : byteOfChar text start = (text.take start).utf8Encode.size :=
    (size_utf8Encode _).symm
  have last : byteOfChar text stop = (text.take stop).utf8Encode.size := (size_utf8Encode _).symm
  have whole : text.utf8Encode = (text.take stop).utf8Encode ++ (text.drop stop).utf8Encode := by
    rw [← List.utf8Encode_append, List.take_append_drop]
  rw [whole, last, ByteArray.extract_append_size_left, first, take_eq_append text le,
    List.utf8Encode_append]
  exact ByteArray.extract_append_eq_right rfl ByteArray.size_append

end Text

namespace Buffer

variable {parent child buffer : Buffer} {range : Range} {ranges : List Range}
  {index offset pos later start stop byte : Nat}

/-! ## Bytes of a position -/

theorem byteOfChar_eq_ok_iff : buffer.byteOfChar pos = .ok byte ↔
    pos ≤ buffer.length ∧ Text.byteOfChar buffer.content pos = byte := by
  by_cases within : pos ≤ buffer.length
  · rw [byteOfChar, Text.getElem?_charOffsets within]
    exact ⟨fun found => ⟨within, Except.ok.inj found⟩, fun found => congrArg Except.ok found.2⟩
  · rw [byteOfChar, Text.getElem?_charOffsets_of_length_lt (Nat.lt_of_not_le within)]
    exact ⟨nofun, fun found => absurd found.1 within⟩

/-- The position stands for a byte of the file. -/
def ByteAt (buffer : Buffer) (pos byte : Nat) : Prop :=
  ∃ position, buffer.absolute pos = .ok position ∧ buffer.top.byteOfChar position = .ok byte

/-- Every position of a buffer that exists stands for a byte. -/
theorem Built.byteAt_topByte (built : buffer.Built) (within : pos ≤ buffer.length) :
    buffer.ByteAt pos (buffer.topByte pos) := by
  obtain ⟨position, found, inside⟩ := built.placed pos within
  refine ⟨position, found, byteOfChar_eq_ok_iff.2 ⟨inside, ?_⟩⟩
  rw [topByte, found]

theorem ByteAt.topByte_eq (found : buffer.ByteAt pos byte) : buffer.topByte pos = byte := by
  obtain ⟨position, located, converted⟩ := found
  rw [topByte, located]
  exact (byteOfChar_eq_ok_iff.1 converted).2

/-! ## Ranges in order -/

/-- Each range ends before the next one begins. -/
def Ascending (ranges : List Range) : Prop :=
  ranges.IsChain fun range next => range.stop ≤ next.start

instance (ranges : List Range) : Decidable (Ascending ranges) :=
  inferInstanceAs (Decidable (List.IsChain _ ranges))

/-- A file, or what was carved out of it in ascending order, over any number of parents. -/
inductive Ordered : Buffer → Prop
  | file (name : String) (content : List Char) : Ordered (file name content)
  | carve {parent child : Buffer} {ranges : List Range} (above : Ordered parent)
      (carved : parent.carve ranges = .ok child) (ascending : Ascending ranges) : Ordered child

theorem Ordered.built (ordered : buffer.Ordered) : buffer.Built := by
  induction ordered with
  | file name content => exact .file name content
  | carve _ carved _ built => exact .carve built carved

/-- A range ends before all later ones begin. -/
theorem Ascending.stop_le_start (ascending : Ascending ranges)
    (turned : ∀ range ∈ ranges, range.start ≤ range.stop) {later : Nat} (lt : index < later)
    (inside : later < ranges.length) : ranges[index].stop ≤ ranges[later].start := by
  induction later with
  | zero => exact absurd lt (Nat.not_lt_zero _)
  | succ later ih =>
      have next : ranges[later].stop ≤ ranges[later + 1].start :=
        List.isChain_iff_getElem.1 ascending later inside
      rcases Nat.lt_succ_iff_lt_or_eq.1 lt with lt | rfl
      · calc ranges[index].stop ≤ ranges[later].start := ih lt (Nat.lt_of_succ_lt inside)
          _ ≤ ranges[later].stop := turned _ (List.getElem_mem _)
          _ ≤ ranges[later + 1].start := next
      · exact next

/-- If all ranges are in order, then so are the positions of the file that positions stand for. -/
theorem Ordered.absolute_mono (ordered : buffer.Ordered) (le : pos ≤ later)
    (within : later ≤ buffer.length) :
    ∃ first last, buffer.absolute pos = .ok first ∧ buffer.absolute later = .ok last ∧
      first ≤ last := by
  induction ordered generalizing pos later with
  | file name content =>
      exact ⟨pos, later, absolute_file (Nat.le_trans le within), absolute_file within, le⟩
  | @carve parent child ranges above carved ascending ih =>
      obtain ⟨nonempty, fit, rfl⟩ := carve_eq_ok_iff.1 carved
      have turned : ∀ range ∈ ranges, range.start ≤ range.stop :=
        fun range member => ((parent.contains_iff range).1 (fit range member)).1
      obtain ⟨one, insideOne, offset, short, rfl, -, absolute_eq⟩ :=
        exists_absolute_eq nonempty fit (Nat.le_trans le within)
      obtain ⟨two, insideTwo, offset', short', rfl, above', absolute_eq'⟩ :=
        exists_absolute_eq nonempty fit within
      rw [absolute_eq, absolute_eq']
      refine ih ?_ above'
      rcases Nat.lt_trichotomy one two with lt | rfl | lt
      · -- The later position is in a range behind this one, and that begins where this one stops.
        have apart := ascending.stop_le_start turned lt insideTwo
        have := turned _ (List.getElem_mem insideOne)
        rw [Range.length] at short
        omega
      · exact Nat.add_le_add_left (Nat.le_of_add_le_add_left le) _
      · -- The other way round, the position would be in front of its own range.
        have next : rangeStart ranges (two + 1) ≤ rangeStart ranges one := rangeStart_le lt
        rw [rangeStart_succ insideTwo] at next
        omega

theorem Ordered.byteAt_mono (ordered : buffer.Ordered) (le : pos ≤ later)
    (within : later ≤ buffer.length) :
    ∃ start stop, buffer.ByteAt pos start ∧ buffer.ByteAt later stop ∧ start ≤ stop := by
  obtain ⟨first, last, found, foundLater, ascending⟩ := ordered.absolute_mono le within
  refine ⟨_, _, ordered.built.byteAt_topByte (Nat.le_trans le within),
    ordered.built.byteAt_topByte within, ?_⟩
  rw [topByte, topByte, found, foundLater]
  exact Text.byteOfChar_mono _ ascending

/-! ## Between the first range and the last -/

/-- The buffers that this one was carved out of, the nearest first, each with the ranges that were
taken from it. -/
def levels : Buffer → List (Buffer × List Range)
  | file .. => []
  | carved parent ranges => (parent, ranges) :: parent.levels

/-- A carved buffer reaches from the start of its first range to the stop of its last one. -/
theorem absolute_ends (nonempty : ranges ≠ [])
    (fit : ∀ range ∈ ranges, parent.contains range = true) :
    (carved parent ranges).absolute 0 = parent.absolute (ranges.head nonempty).start ∧
      (carved parent ranges).absolute (carved parent ranges).length =
        parent.absolute (ranges.getLast nonempty).stop := by
  have some := List.length_pos_iff.2 nonempty
  have final : ranges.length - 1 < ranges.length := by omega
  constructor
  · have first := absolute_rangeStart nonempty fit some (Nat.zero_le _)
    rwa [rangeStart_zero, Nat.add_zero, Nat.add_zero, ← List.head_eq_getElem nonempty] at first
  · have whole := length_carved nonempty fit
    have reached := rangeStart_succ final
    rw [Nat.sub_add_cancel some] at reached
    have last := absolute_rangeStart nonempty fit final (Nat.le_refl _)
    have stop : ranges[ranges.length - 1].start + ranges[ranges.length - 1].length =
        ranges[ranges.length - 1].stop :=
      Nat.add_sub_cancel' ((parent.contains_iff _).1 (fit _ (List.getElem_mem final))).1
    rw [List.getLast_eq_getElem, ← stop, ← last]
    congr 1
    omega

/-- Every position is between where the first range of a buffer above starts and where the last one
stops. -/
theorem Ordered.byteAt_between (ordered : buffer.Ordered) (within : pos ≤ buffer.length)
    {level : Buffer × List Range} (member : level ∈ buffer.levels) {first last : Range}
    (head : level.2.head? = some first) (final : level.2.getLast? = some last) :
    ∃ lower upper, level.1.ByteAt first.start lower ∧ level.1.ByteAt last.stop upper ∧
      lower ≤ buffer.topByte pos ∧ buffer.topByte pos ≤ upper := by
  induction ordered generalizing pos with
  | file => cases member
  | @carve parent child ranges above carved ascending ih =>
      have ordered := Ordered.carve above carved ascending
      obtain ⟨nonempty, fit, rfl⟩ := carve_eq_ok_iff.1 carved
      cases member with
      | head =>
          -- The ranges are this buffer's own, so their ends are its ends.
          obtain ⟨lower, byte, atStart, found, behind⟩ :=
            ordered.byteAt_mono (Nat.zero_le pos) within
          obtain ⟨_, upper, again, atStop, ahead⟩ := ordered.byteAt_mono within (Nat.le_refl _)
          obtain ⟨start, stop⟩ := absolute_ends nonempty fit
          rw [ByteAt, start] at atStart
          rw [ByteAt, stop] at atStop
          obtain rfl := Option.some.inj ((List.head?_eq_some_head nonempty).symm.trans head)
          obtain rfl := Option.some.inj ((List.getLast?_eq_some_getLast nonempty).symm.trans final)
          exact ⟨lower, upper, atStart, atStop, found.topByte_eq ▸ behind,
            again.topByte_eq ▸ ahead⟩
      | tail _ member =>
          -- A buffer farther up: the position stands for one of the parent.
          obtain ⟨index, inside, offset, -, -, here, absolute_eq⟩ :=
            exists_absolute_eq nonempty fit within
          rw [topByte, absolute_eq]
          exact ih here member

/-! ## Between separators -/

/-- A separator stands here: between two ranges of this buffer, or at the same character of one that
it was carved out of. -/
inductive Separates : Buffer → Nat → Prop
  | between {parent : Buffer} {ranges : List Range} {index : Nat} (inside : index < ranges.length)
      (more : index + 1 < ranges.length) :
      Separates (carved parent ranges) (rangeStart ranges index + ranges[index].length)
  | above {parent : Buffer} {ranges : List Range} {index offset : Nat}
      (inside : index < ranges.length) (within : offset < ranges[index].length)
      (separates : Separates parent (ranges[index].start + offset)) :
      Separates (carved parent ranges) (rangeStart ranges index + offset)

/-- Characters of one range are those of the parent. -/
theorem extract_joinRanges {text : List Char}
    (fit : ∀ range ∈ ranges, range.fits text.length = true) (inside : index < ranges.length)
    (within : stop ≤ ranges[index].length) :
    (joinRanges text ranges).extract (rangeStart ranges index + start)
        (rangeStart ranges index + stop) =
      text.extract (ranges[index].start + start) (ranges[index].start + stop) := by
  apply List.ext_getElem?
  intro offset
  rw [getElem?_extract, getElem?_extract, Nat.add_assoc, Nat.add_assoc]
  by_cases before : start + offset < stop
  · rw [if_pos (by omega), if_pos (by omega)]
    exact getElem?_joinRanges fit inside (by omega)
  · rw [if_neg (by omega), if_neg (by omega)]

/-- Characters without a separator between them are characters of one range, and the parent has no
separator between them either. -/
theorem exists_range_of_together (nonempty : ranges ≠ [])
    (fit : ∀ range ∈ ranges, parent.contains range = true) (le : start ≤ stop)
    (within : stop ≤ (carved parent ranges).length)
    (together : ∀ pos, start ≤ pos → pos < stop → ¬ (carved parent ranges).Separates pos) :
    ∃ index, ∃ inside : index < ranges.length, ∃ offset length, offset ≤ length ∧
      length ≤ ranges[index].length ∧ start = rangeStart ranges index + offset ∧
      stop = rangeStart ranges index + length ∧
      ∀ pos, ranges[index].start + offset ≤ pos → pos < ranges[index].start + length →
        ¬ parent.Separates pos := by
  have whole := length_carved nonempty fit
  obtain ⟨index, inside, offset, short, rfl⟩ :=
    exists_rangeStart (show start < rangeStart ranges ranges.length by omega)
  have reached := rangeStart_succ inside
  -- The range that the first character is in reaches as far as the characters do: otherwise the
  -- separator behind the range would be one of them.
  have final : stop ≤ rangeStart ranges index + ranges[index].length := by
    by_contra beyond
    by_cases more : index + 1 < ranges.length
    · exact together _ (by omega) (by omega) (.between inside more)
    · have last : index + 1 = ranges.length := by omega
      rw [last] at reached
      omega
  refine ⟨index, inside, offset, stop - rangeStart ranges index, by omega, by omega, rfl, by omega,
    ?_⟩
  intro pos after before separates
  obtain ⟨further, rfl⟩ : ∃ further, pos = ranges[index].start + further :=
    ⟨pos - ranges[index].start, by omega⟩
  exact together (rangeStart ranges index + further) (by omega) (by omega)
    (.above inside (by omega) separates)

/-- Characters without a separator between them are neighbours in the file. -/
theorem Built.contiguous (built : buffer.Built) (le : start ≤ stop)
    (within : stop ≤ buffer.length)
    (together : ∀ pos, start ≤ pos → pos < stop → ¬ buffer.Separates pos) :
    ∃ first, buffer.absolute start = .ok first ∧
      buffer.absolute stop = .ok (first + (stop - start)) ∧
      buffer.top.content.extract first (first + (stop - start)) =
        buffer.content.extract start stop := by
  -- No separator is between the positions, so they are in one range, which is as contiguous in the
  -- buffer above.
  induction built generalizing start stop with
  | file name content =>
      refine ⟨start, absolute_file (Nat.le_trans le within), ?_, ?_⟩
      · rw [Nat.add_sub_cancel' le]
        exact absolute_file within
      · rw [Nat.add_sub_cancel' le]
        rfl
  | @carve parent child ranges above carved ih =>
      obtain ⟨nonempty, fit, rfl⟩ := carve_eq_ok_iff.1 carved
      obtain ⟨index, inside, offset, length, forward, short, rfl, rfl, apart⟩ :=
        exists_range_of_together nonempty fit le within together
      have inParent : ranges[index].start + length ≤ parent.length := by
        obtain ⟨turned, fits⟩ := (parent.contains_iff _).1 (fit _ (List.getElem_mem inside))
        have size : ranges[index].length = ranges[index].stop - ranges[index].start := rfl
        show _ ≤ parent.content.length
        omega
      obtain ⟨first, found, foundStop, same⟩ :=
        ih (Nat.add_le_add_left forward _) inParent apart
      rw [Nat.add_sub_add_left] at foundStop same ⊢
      refine ⟨first, ?_, ?_, ?_⟩
      · exact (absolute_rangeStart nonempty fit inside (Nat.le_trans forward short)).trans found
      · exact (absolute_rangeStart nonempty fit inside short).trans foundStop
      · exact same.trans (extract_joinRanges fit inside short).symm

/-- The bytes of characters without a separator between them. -/
theorem Built.bytes_contiguous (built : buffer.Built) (le : start ≤ stop)
    (within : stop ≤ buffer.length)
    (together : ∀ pos, start ≤ pos → pos < stop → ¬ buffer.Separates pos) :
    buffer.top.content.utf8Encode.extract (buffer.topByte start) (buffer.topByte stop) =
      (buffer.content.extract start stop).utf8Encode := by
  obtain ⟨first, found, foundStop, same⟩ := built.contiguous le within together
  rw [topByte, topByte, found, foundStop, ← same]
  exact Text.extract_utf8Encode _ (Nat.le_add_right ..)

/-- A separator is read as the end of a line. -/
theorem Built.newline_of_separates (built : buffer.Built) (separates : buffer.Separates pos) :
    buffer.content[pos]? = some '\n' := by
  induction built generalizing pos with
  | file => cases separates
  | carve above carved ih =>
      obtain ⟨nonempty, fit, rfl⟩ := carve_eq_ok_iff.1 carved
      cases separates with
      | between inside more => exact getElem?_joinRanges_separator fit more
      | above inside within separates =>
          exact (getElem?_joinRanges fit inside within).trans (ih separates)

/-- Any other character has its bytes in the file. -/
theorem Built.topByte_succ {c : Char} (built : buffer.Built) (found : buffer.content[pos]? = some c)
    (other : c ≠ '\n') :
    buffer.topByte (pos + 1) = buffer.topByte pos + c.utf8Size ∧
      buffer.top.content.utf8Encode.extract (buffer.topByte pos) (buffer.topByte (pos + 1)) =
        [c].utf8Encode := by
  have inside : pos + 1 ≤ buffer.length := (List.getElem?_eq_some_iff.1 found).1
  have together : ∀ next, pos ≤ next → next < pos + 1 → ¬ buffer.Separates next := by
    intro next after before separates
    obtain rfl : next = pos := by omega
    have newline := built.newline_of_separates separates
    exact other (Option.some.inj (found.symm.trans newline))
  have le : pos ≤ pos + 1 := Nat.le_succ pos
  have bytes := built.bytes_contiguous le inside together
  rw [Text.extract_succ found] at bytes
  refine ⟨?_, bytes⟩
  obtain ⟨first, here, next, same⟩ := built.contiguous le inside together
  rw [Nat.add_sub_cancel_left] at next same
  rw [Text.extract_succ found] at same
  rw [topByte, topByte, here, next]
  show Text.byteOfChar _ (first + 1) = Text.byteOfChar _ first + _
  rw [Text.byteOfChar, Text.take_eq_append _ (Nat.le_succ first), same, Text.byteLength_append]
  rfl

end Buffer

/-! ## Spans -/

theorem Span.between_self (start : Nat) : Span.between start start = ⟨start, 0⟩ := by
  rw [Span.between, Nat.sub_self]

/-- A span that is not reversed reaches as far as it should. -/
theorem Span.offset_add_length_between {start stop : Nat} (le : start ≤ stop) :
    (Span.between start stop).offset + (Span.between start stop).length = stop :=
  Nat.add_sub_cancel' le

namespace Location

variable {shape : Shape} {location : Location shape}

/-- The span of a location is exact. -/
structure Exact (location : Location shape) : Prop where
  starts : location.buffer.ByteAt location.range.start location.span.offset
  stops : location.buffer.ByteAt location.range.stop
    (location.span.offset + location.span.length)
  /-- It is between the first and the last byte that were taken from any buffer above. -/
  between : ∀ level ∈ location.buffer.levels, ∀ first last, level.2.head? = some first →
    level.2.getLast? = some last → ∃ lower upper, level.1.ByteAt first.start lower ∧
      level.1.ByteAt last.stop upper ∧ lower ≤ location.span.offset ∧
      location.span.offset + location.span.length ≤ upper
  /-- Without a separator in it, its bytes are those of the text. -/
  bytes_eq : (∀ pos, location.range.start ≤ pos → pos < location.range.stop →
      ¬ location.buffer.Separates pos) →
    location.buffer.top.content.utf8Encode.extract location.span.offset
        (location.span.offset + location.span.length) =
      location.source.utf8Encode

end Location

/-- Buffers that are carved in ascending order keep the order of positions, and the spans of their
locations are exact. -/
theorem Buffer.Ordered.spans_exact {buffer : Buffer} (ordered : buffer.Ordered) :
    (∀ pos later, pos ≤ later → later ≤ buffer.length →
        ∃ first last, buffer.absolute pos = .ok first ∧ buffer.absolute later = .ok last ∧
          first ≤ last) ∧
      ∀ (shape : Shape) (location : Location shape), location.buffer = buffer →
        buffer.contains location.range = true → location.Exact := by
  refine ⟨fun _ _ => ordered.absolute_mono, ?_⟩
  rintro shape location rfl contains
  obtain ⟨le, within⟩ := (Buffer.contains_iff _ _).1 contains
  -- Bytes ascend as positions do, at every level up to the file.
  obtain ⟨start, stop, atStart, atStop, ascending⟩ := ordered.byteAt_mono le within
  have offset : location.span.offset = start := atStart.topByte_eq
  have finish : location.span.offset + location.span.length = stop := by
    rw [Location.span, atStart.topByte_eq, atStop.topByte_eq]
    exact Span.offset_add_length_between ascending
  refine ⟨offset ▸ atStart, finish ▸ atStop, ?_, ?_⟩
  · intro level member first last head final
    obtain ⟨lower, -, atLower, -, behind, -⟩ :=
      ordered.byteAt_between (Nat.le_trans le within) member head final
    obtain ⟨-, upper, -, atUpper, -, ahead⟩ := ordered.byteAt_between within member head final
    refine ⟨lower, upper, atLower, atUpper, behind, ?_⟩
    rw [finish, ← atStop.topByte_eq]
    exact ahead
  · intro together
    rw [finish, offset, ← atStart.topByte_eq, ← atStop.topByte_eq,
      location.source_of_contains contains]
    exact ordered.built.bytes_contiguous le within together

/-- Lines of a file, one of them empty, and out of them a part with characters of several bytes. -/
theorem Buffer.Ordered.spans_exact_grandchild :
    ∃ child grandchild, ∃ whole letter : Location .plain,
      (ofString "a.rb" "é日\nab").carve [⟨0, 2⟩, ⟨2, 2⟩, ⟨3, 5⟩] = .ok child ∧
        child.carve [⟨1, 4⟩, ⟨5, 6⟩] = .ok grandchild ∧ grandchild.Ordered ∧
        Location.ofRange grandchild grandchild.all = .ok whole ∧ whole.Exact ∧
        whole.span = ⟨2, 6⟩ ∧ whole.source = "日\n\n\nb".toList ∧
        Location.ofRange grandchild ⟨0, 1⟩ = .ok letter ∧ letter.Exact ∧
        letter.span = ⟨2, 3⟩ ∧ letter.source = "日".toList ∧
        (List.range 6).map grandchild.absolute = [1, 2, 2, 3, 4, 5].map Except.ok := by
  let file := ofString "a.rb" "é日\nab"
  let child := file.carved [⟨0, 2⟩, ⟨2, 2⟩, ⟨3, 5⟩]
  let grandchild := child.carved [⟨1, 4⟩, ⟨5, 6⟩]
  have first : file.carve [⟨0, 2⟩, ⟨2, 2⟩, ⟨3, 5⟩] = .ok child := rfl
  have second : child.carve [⟨1, 4⟩, ⟨5, 6⟩] = .ok grandchild := rfl
  have ordered : grandchild.Ordered :=
    .carve (.carve (.file ..) first (by decide)) second (by decide)
  have spans := ordered.spans_exact.2 .plain
  exact ⟨child, grandchild, { buffer := grandchild, range := grandchild.all },
    { buffer := grandchild, range := ⟨0, 1⟩ }, first, second, ordered, rfl, spans _ rfl rfl,
    by decide, by decide, rfl, spans _ rfl rfl, by decide, by decide, rfl⟩

end Signet
