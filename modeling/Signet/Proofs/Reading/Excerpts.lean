import Mathlib.Data.List.Forall2
import Signet.Proofs.Reading.Faults
import Signet.Proofs.Source.Carving

/-!
# Places of an excerpt

Positions of a tree count from the start of the excerpt that was parsed. They may as well be counted
in bytes, from the byte of the buffer where the excerpt begins (`charPos`): ranges of trees and
labels of syntax errors are the same (`Lies.range_eq_charPos`, `Lies.unexpected_eq_charPos`).

Two excerpts of one text are `Aligned` if their positions are the same places of one file. Then
locations in them coincide, with all their parts (`Aligned.coincide_typeParamLocation`).
-/

namespace Signet

open Text Grammar

variable {text front : List Char} {tree : ParseTree} {trees : List ParseTree}

/-! ## Bytes of an excerpt -/

theorem charOfByte_append (front text : List Char) (byte : Nat) :
    charOfByte (front ++ text) (byteLength front + byte) = front.length + charOfByte text byte := by
  induction front with
  | nil => simp [byteLength]
  | cons c front ih =>
      have further : c.utf8Size + byteLength front + byte - c.utf8Size =
          byteLength front + byte := by omega
      rw [List.cons_append, byteLength, charOfByte_cons, if_neg (by omega), further, ih,
        List.length_cons]
      omega

/-- A byte behind the text stands for its end, also where more text follows. -/
theorem charOfByte_append_min (text back : List Char) (byte : Nat) :
    charOfByte (text ++ back) (min byte (byteLength text)) = charOfByte text byte := by
  induction text generalizing byte with
  | nil =>
      rw [byteLength, Nat.min_zero, List.nil_append, charOfByte_zero, charOfByte_nil]
  | cons c text ih =>
      rw [List.cons_append, byteLength, charOfByte_cons, charOfByte_cons]
      by_cases inside : byte < c.utf8Size
      · rw [if_pos inside, if_pos (by omega)]
      · have further : min byte (c.utf8Size + byteLength text) - c.utf8Size =
            min (byte - c.utf8Size) (byteLength text) := by omega
        rw [if_neg inside, if_neg (by omega), further, ih]

namespace Excerpt

variable {excerpt : Excerpt} {range : Range}

/-- The text of the excerpt stands in the buffer where the excerpt begins. -/
structure Lies (excerpt : Excerpt) : Prop where
  stop_le : excerpt.base + excerpt.text.length ≤ excerpt.buffer.content.length
  text_eq : (excerpt.buffer.content.drop excerpt.base).take excerpt.text.length = excerpt.text

/-- The position of the buffer at a byte of the excerpt. Bytes of the buffer count from its own
beginning, and bytes behind the excerpt stand for its end. -/
def charPos (excerpt : Excerpt) (byte : Nat) : Nat :=
  excerpt.buffer.charOfByte
    (byteOfChar excerpt.buffer.content excerpt.base + min byte (byteLength excerpt.text))

/-- Bytes of the buffer and bytes of the excerpt lead to the same position. -/
theorem Lies.charPos_eq (lies : excerpt.Lies) (byte : Nat) :
    excerpt.charPos byte = excerpt.base + charOfByte excerpt.text byte := by
  obtain ⟨buffer, base, text⟩ := excerpt
  obtain ⟨stop_le, text_eq⟩ := lies
  dsimp only at stop_le text_eq
  obtain ⟨rest, split⟩ : ∃ rest, buffer.content = buffer.content.take base ++ (text ++ rest) := by
    have front : text <+: buffer.content.drop base := text_eq ▸ List.take_prefix _ _
    obtain ⟨rest, rest_eq⟩ := front
    exact ⟨rest, by rw [rest_eq, List.take_append_drop]⟩
  have front : (buffer.content.take base).length = base := by
    rw [List.length_take]
    omega
  -- the bytes in front of the excerpt are counted apart from those in it
  calc charOfByte buffer.content
        (byteLength (buffer.content.take base) + min byte (byteLength text))
      = charOfByte (buffer.content.take base ++ (text ++ rest))
        (byteLength (buffer.content.take base) + min byte (byteLength text)) :=
        congrArg (charOfByte · _) split
    _ = base + charOfByte text byte := by
        rw [charOfByte_append, front, charOfByte_append_min]

/-- The range of a tree is what its bytes give. -/
theorem Lies.range_eq_charPos (lies : excerpt.Lies) (within : tree.Within excerpt.text) :
    excerpt.range tree =
      let start := byteOfChar excerpt.text tree.start
      ⟨excerpt.charPos start, excerpt.charPos (start + byteLength (trimEnd tree.text))⟩ := by
  have inside := within.range
  have stop : byteOfChar excerpt.text tree.start + byteLength (trimEnd tree.text) =
      byteOfChar excerpt.text tree.range.stop := by
    have trimmed : trimEnd tree.text <+: tree.text := trimEnd_prefix tree.text
    have front : trimEnd tree.text <+: excerpt.text.drop tree.start :=
      trimmed.trans (within.text_eq ▸ List.take_prefix _ _)
    show _ = byteLength (excerpt.text.take (tree.start + (trimEnd tree.text).length))
    rw [List.take_add, byteLength_append, ← List.prefix_iff_eq_take.1 front]
    rfl
  dsimp only
  rw [stop, lies.charPos_eq, lies.charPos_eq, charOfByte_byteOfChar within.start_le,
    charOfByte_byteOfChar inside.2, Nat.add_comm, Nat.add_comm excerpt.base]
  rfl

/-- The label of a syntax error is what the byte where the text stops being grammatical and the next
one give. -/
theorem Lies.unexpected_eq_charPos (lies : excerpt.Lies) {stop : Stop}
    (le : stop.pos ≤ excerpt.text.length) :
    excerpt.unexpected stop =
      let byte := byteOfChar excerpt.text stop.pos
      .refused (.unexpectedInput stop.expected)
        (.between (excerpt.buffer.topByte (excerpt.charPos byte))
          (excerpt.buffer.topByte (excerpt.charPos (byte + 1)))) := by
  dsimp only
  rw [lies.charPos_eq, lies.charPos_eq, charOfByte_byteOfChar le]
  rfl

/-- A range of the excerpt's text is one of the buffer. -/
theorem Lies.contains_shift (lies : excerpt.Lies) (inside : range.InText excerpt.text) :
    excerpt.buffer.contains (range.shift excerpt.base) = true := by
  obtain ⟨ordered, stop⟩ := inside
  have := lies.stop_le
  refine (excerpt.buffer.contains_iff _).2 ?_
  show range.start + excerpt.base ≤ range.stop + excerpt.base ∧
    range.stop + excerpt.base ≤ excerpt.buffer.content.length
  omega

/-- What a range of the excerpt selects in the buffer is what it selects in the text. -/
theorem Lies.extract_shift (lies : excerpt.Lies) (inside : range.InText excerpt.text) :
    excerpt.buffer.content.extract (range.shift excerpt.base).start
        (range.shift excerpt.base).stop =
      excerpt.text.extract range.start range.stop := by
  obtain ⟨ordered, stop⟩ := inside
  have length : range.stop + excerpt.base - (range.start + excerpt.base) =
      range.stop - range.start := by omega
  show excerpt.buffer.content.extract (range.start + excerpt.base) (range.stop + excerpt.base) = _
  rw [List.extract_eq_take_drop, List.extract_eq_take_drop, length, ← lies.text_eq, List.drop_take,
    List.take_take, List.drop_drop, Nat.min_eq_left (by omega), Nat.add_comm]

end Excerpt

/-! ## Locations of the same text -/

namespace Location

variable {shape other : Shape}

/-- Both locations exist and select the same text of one file. -/
structure SameText (one : Location shape) (two : Location other) : Prop where
  contains_left : one.buffer.contains one.range = true
  contains_right : two.buffer.contains two.range = true
  source_eq : one.source = two.source
  startPlace_eq : one.startPlace = two.startPlace
  stopPlace_eq : one.stopPlace = two.stopPlace
  span_eq : one.span = two.span

/-- Which parts the locations have does not matter. -/
theorem SameText.withParts {one : Location shape} {two : Location other} (same : one.SameText two)
    (required required' : RequiredKey → Option Range)
    (optional optional' : OptionalKey → Slot) :
    ({ one with required, optional } : Location shape).SameText
      ({ two with required := required', optional := optional' } : Location other) := by
  obtain ⟨left, right, source, start, stop, span⟩ := same
  exact ⟨left, right, source, start, stop, span⟩

/-- A part of one location selects the same text as a part of the other. -/
def SamePart (one : Location shape) (two : Location other) (first second : Range) : Prop :=
  SameText ({ buffer := one.buffer, range := first } : Location .plain)
    ({ buffer := two.buffer, range := second } : Location .plain)

end Location

/-- The same is known of both parts, and where they are present they are related. -/
inductive Slot.Rel (R : Range → Range → Prop) : Slot → Slot → Prop
  | unset : Rel R unset unset
  | absent : Rel R absent absent
  | present {first second : Range} : R first second → Rel R (present first) (present second)

/-- The locations select the same text, and so do their parts. -/
structure Location.Coincide {shape : Shape} (one two : Location shape) : Prop
    extends Location.SameText one two where
  required : ∀ key, Option.Rel (one.SamePart two) (one.required key) (two.required key)
  optional : ∀ key, Slot.Rel (one.SamePart two) (one.optional key) (two.optional key)

/-! ## Aligned excerpts -/

/-- The excerpts have the same text, and its positions are the same places of one file. -/
structure Excerpt.Aligned (one two : Excerpt) : Prop where
  lies_left : one.Lies
  lies_right : two.Lies
  text_eq : one.text = two.text
  top_eq : one.buffer.top = two.buffer.top
  absolute_eq : ∀ pos ≤ one.text.length,
    one.buffer.absolute (one.base + pos) = two.buffer.absolute (two.base + pos)

namespace Excerpt.Aligned

variable {one two : Excerpt} {range : Range} {shape : Shape} (aligned : one.Aligned two)

include aligned

theorem place_eq {pos : Nat} (le : pos ≤ one.text.length) :
    one.buffer.place (pos + one.base) = two.buffer.place (pos + two.base) := by
  rw [Buffer.place, Buffer.place, Nat.add_comm, Nat.add_comm pos, aligned.absolute_eq pos le,
    aligned.top_eq]

theorem topByte_eq {pos : Nat} (le : pos ≤ one.text.length) :
    one.buffer.topByte (pos + one.base) = two.buffer.topByte (pos + two.base) := by
  rw [Buffer.topByte, Buffer.topByte, Nat.add_comm, Nat.add_comm pos, aligned.absolute_eq pos le,
    aligned.top_eq]

/-- A range of the text is the same place, with whichever parts the locations have. -/
theorem sameText (inside : range.InText one.text) {first second : Location shape}
    (left : first.buffer = one.buffer ∧ first.range = range.shift one.base)
    (right : second.buffer = two.buffer ∧ second.range = range.shift two.base) :
    first.SameText second := by
  obtain ⟨buffer, _, _, _⟩ := first
  obtain ⟨rfl, rfl⟩ := left
  obtain ⟨buffer, _, _, _⟩ := second
  obtain ⟨rfl, rfl⟩ := right
  have insideRight : range.InText two.text := aligned.text_eq ▸ inside
  have start : range.start ≤ one.text.length := Nat.le_trans inside.1 inside.2
  have containsLeft := aligned.lies_left.contains_shift inside
  have containsRight := aligned.lies_right.contains_shift insideRight
  refine ⟨containsLeft, containsRight, ?_, ?_, ?_, ?_⟩
  · rw [Location.source_of_contains _ containsLeft, Location.source_of_contains _ containsRight]
    show one.buffer.content.extract _ _ = two.buffer.content.extract _ _
    rw [aligned.lies_left.extract_shift inside, aligned.lies_right.extract_shift insideRight,
      aligned.text_eq]
  · show (one.buffer.place (range.start + one.base)).toOption.getD _ =
      (two.buffer.place (range.start + two.base)).toOption.getD _
    rw [aligned.place_eq start]
  · show (one.buffer.place (range.stop + one.base)).toOption.getD _ =
      (two.buffer.place (range.stop + two.base)).toOption.getD _
    rw [aligned.place_eq inside.2]
  · show Span.between (one.buffer.topByte _) (one.buffer.topByte _) =
      Span.between (two.buffer.topByte _) (two.buffer.topByte _)
    exact congrArg₂ Span.between (aligned.topByte_eq start) (aligned.topByte_eq inside.2)

/-! ### Parts of locations -/

/-- Two locations on the two buffers whose parts are the same places so far. -/
structure Parallel (one two : Excerpt) (first second : Location shape) : Prop where
  buffer_left : first.buffer = one.buffer
  buffer_right : second.buffer = two.buffer
  coincide : first.Coincide second

theorem parallel_location (within : tree.Within one.text) :
    Parallel one two (one.location tree : Location shape) (two.location tree) where
  buffer_left := rfl
  buffer_right := rfl
  coincide :=
    { toSameText := aligned.sameText within.range ⟨rfl, rfl⟩ ⟨rfl, rfl⟩
      required := fun _ => .none
      optional := fun _ => .unset }

theorem parallel_recordTree {first second : Location shape}
    (parallel : Parallel one two first second) (within : ∀ tree ∈ trees, tree.Within one.text)
    (key : RequiredKey) (rule : Rule) :
    Parallel one two (one.recordTree trees first key rule)
      (two.recordTree trees second key rule) := by
  unfold recordTree
  cases found : findTree rule trees with
  | none => exact parallel
  | some tree =>
      obtain ⟨left, right, coincide⟩ := parallel
      refine ⟨left, right, ⟨coincide.toSameText.withParts .., fun other => ?_, coincide.optional⟩⟩
      have here := (within_of_findTree within found).range
      by_cases same : other = key
      · subst same
        rw [Location.required_record, Location.required_record]
        exact .some (aligned.sameText here ⟨left, rfl⟩ ⟨right, rfl⟩)
      · rw [Location.required_record_of_ne _ _ same, Location.required_record_of_ne _ _ same]
        exact coincide.required other

theorem parallel_recordTree? {first second : Location shape}
    (parallel : Parallel one two first second) (within : ∀ tree ∈ trees, tree.Within one.text)
    (key : OptionalKey) (rule : Rule) :
    Parallel one two (one.recordTree? trees first key rule)
      (two.recordTree? trees second key rule) := by
  obtain ⟨left, right, coincide⟩ := parallel
  refine ⟨left, right, ⟨coincide.toSameText.withParts .., coincide.required, fun other => ?_⟩⟩
  unfold recordTree?
  by_cases same : other = key
  · subst same
    rw [Location.optional_recordOptional, Location.optional_recordOptional]
    cases found : findTree rule trees with
    | none => exact .absent
    | some tree =>
        have here := (within_of_findTree within found).range
        exact .present (aligned.sameText here ⟨left, rfl⟩ ⟨right, rfl⟩)
  · rw [Location.optional_recordOptional_of_ne _ _ same,
      Location.optional_recordOptional_of_ne _ _ same]
    exact coincide.optional other

theorem coincide_typeParamLocation (within : tree.Within one.text) :
    (typeParamLocation one tree).Coincide (typeParamLocation two tree) := by
  have inside := within.children
  have whole : Parallel one two (one.location tree : Location .typeParam) (two.location tree) :=
    aligned.parallel_location within
  have name := aligned.parallel_recordTree whole inside .name .upperIdent
  have variance := aligned.parallel_recordTree? name inside .variance .variance
  have unchecked := aligned.parallel_recordTree? variance inside .unchecked .unchecked
  have upperBound := aligned.parallel_recordTree? unchecked inside .upperBound .upperBound
  exact (aligned.parallel_recordTree? upperBound inside .default .defaultType).coincide

end Excerpt.Aligned

end Signet
