import Signet.Proofs.Source.Histories

/-!
# Locations cut out of their buffer

A location that is cut out selects all of a file of its own. Its parts are counted from its start
and clipped to its text, so what is left of a part is what it has in common with the location
(`extract_clip`): all of it if it lies inside, and nothing if it lies outside. Cutting out a second
time changes nothing (`detach_detach`).
-/

namespace Signet

/-! ## States -/

namespace Slot

variable {f : Range → Range} {slot : Slot}

theorem map_eq_unset_iff : slot.map f = .unset ↔ slot = .unset := by
  cases slot <;> simp [map]

theorem map_eq_absent_iff : slot.map f = .absent ↔ slot = .absent := by
  cases slot <;> simp [map]

theorem exists_map_eq_present_iff :
    (∃ part, slot.map f = .present part) ↔ ∃ part, slot = .present part := by
  cases slot <;> simp [map]

end Slot

namespace Location

open Text

variable {shape : Shape} {location : Location shape} {keys : List RequiredKey} {whole part : Range}
  {length : Nat}

/-! ## Clipping -/

/-- The clipped part selects what the part and the whole have in common. -/
theorem extract_clip (text : List Char) (whole part : Range) :
    (text.extract whole.start whole.stop).extract (clip whole part whole.length).start
        (clip whole part whole.length).stop =
      text.extract (max whole.start part.start) (min whole.stop part.stop) := by
  apply List.ext_getElem?
  intro index
  simp only [Buffer.getElem?_extract, clip, Range.length]
  -- The start is clipped only if nothing is in common, so where something is, it was just moved.
  by_cases common : max whole.start part.start + index < min whole.stop part.stop
  · have start : whole.start + (min (part.start - whole.start) (whole.stop - whole.start) + index) =
        max whole.start part.start + index := by omega
    rw [if_pos common, if_pos (by omega), if_pos (by omega), start]
  · rw [if_neg common]
    split
    · exact if_neg (by omega)
    · rfl

/-- A part of a whole text is not clipped. -/
theorem clip_of_fits (fits : part.fits length = true) : clip ⟨0, length⟩ part length = part := by
  obtain ⟨le, within⟩ := (part.fits_iff length).1 fits
  simp only [clip, Nat.sub_zero]
  rw [Nat.min_eq_left (Nat.le_trans le within), Nat.max_eq_left le, Nat.min_eq_left within]

/-- A part that does not reach behind the whole is only moved. -/
theorem clip_of_stop_le (le : part.start ≤ part.stop) (before : part.stop ≤ whole.stop) :
    clip whole part whole.length = ⟨part.start - whole.start, part.stop - whole.start⟩ := by
  have first : part.start - whole.start ≤ part.stop - whole.start := Nat.sub_le_sub_right le _
  have last : part.stop - whole.start ≤ whole.length := Nat.sub_le_sub_right before _
  simp only [clip]
  rw [Nat.min_eq_left (Nat.le_trans first last), Nat.max_eq_left first, Nat.min_eq_left last]

/-! ## Cutting out -/

theorem source_detach (location : Location shape) : location.detach.source = location.source := by
  rw [source_of_contains _ location.detach.buffer.contains_all]
  exact List.take_length

/-- What was cut out is cut out again as it is. -/
theorem detach_detach (location : Location shape) : location.detach.detach = location.detach := by
  have kept : ∀ part : Range,
      clip ⟨0, location.source.length⟩ (clip location.range part location.source.length)
        location.source.length = clip location.range part location.source.length :=
    fun part => clip_of_fits (fits_clip ..)
  rw [detach, source_detach]
  simp only [detach, Buffer.name, mk.injEq, true_and]
  constructor
  · funext key
    cases location.required key with
    | none => rfl
    | some part => exact congrArg some (kept part)
  · funext key
    cases location.optional key with
    | unset => rfl
    | absent => rfl
    | present part => exact congrArg Slot.present (kept part)

/-! ## Parts -/

/-- One location is what is left of another one when it is cut out together with a location. -/
structure Remains (location : Location shape) (child left : Location .plain) : Prop where
  buffer_eq : left.buffer = .file location.buffer.name location.source
  contains : left.buffer.contains left.range = true
  /-- The text that is left is the text that the two locations have in common. -/
  source_eq : left.source = location.buffer.content.extract
    (max location.range.start child.range.start) (min location.range.stop child.range.stop)
  /-- A location inside of the other one is left as it is. -/
  inside : location.range.start ≤ child.range.start → child.range.stop ≤ location.range.stop →
    left.source = child.source ∧
      left.range.start + location.range.start = child.range.start ∧
      left.range.stop + location.range.start = child.range.stop

theorem length_source (contains : location.buffer.contains location.range = true) :
    location.source.length = location.range.length := by
  rw [source_of_contains location contains]
  exact Buffer.length_extract contains

/-- What is left of a part is what it has in common with the location. -/
theorem source_clip (contains : location.buffer.contains location.range = true) (part : Range) :
    ({ buffer := location.detach.buffer
       range := clip location.range part location.source.length } : Location .plain).source =
      location.buffer.content.extract (max location.range.start part.start)
        (min location.range.stop part.stop) := by
  have clipped : location.detach.buffer.contains
      (clip location.range part location.source.length) = true := fits_clip ..
  rw [source_of_contains _ clipped, ← extract_clip, ← length_source contains]
  exact congrArg (List.extract · _ _) (source_of_contains location contains)

/-- A part of a location that fits its buffer remains where it is clipped to. -/
theorem remains_clip (contains : location.buffer.contains location.range = true)
    (fits : location.buffer.contains part = true) :
    location.Remains { buffer := location.buffer, range := part }
      { buffer := location.detach.buffer
        range := clip location.range part location.source.length } where
  buffer_eq := rfl
  contains := fits_clip ..
  source_eq := source_clip contains part
  inside := by
    intro after before
    have after : location.range.start ≤ part.start := after
    have before : part.stop ≤ location.range.stop := before
    have le := ((Buffer.contains_iff _ _).1 fits).1
    refine ⟨?_, ?_⟩
    · rw [source_clip contains, source_of_contains _ fits, Nat.max_eq_right after,
        Nat.min_eq_right before]
    · rw [length_source contains, clip_of_stop_le le before]
      exact ⟨Nat.sub_add_cancel after, Nat.sub_add_cancel (Nat.le_trans after le)⟩

/-- The location was cut out of its buffer: it selects all of a file, and what is left of its parts
is there. -/
structure CutOut (location cut : Location shape) : Prop where
  buffer_eq : cut.buffer = .file location.buffer.name location.source
  source_eq : cut.source = location.source
  start_eq : cut.range.start = 0
  stop_eq : cut.range.stop = cut.buffer.length
  unassigned_iff : ∀ key, cut.required key = none ↔ location.required key = none
  unset_iff : ∀ key, cut.optional key = .unset ↔ location.optional key = .unset
  absent_iff : ∀ key, cut.optional key = .absent ↔ location.optional key = .absent
  present_iff : ∀ key, (∃ part, cut.optional key = .present part) ↔
    ∃ part, location.optional key = .present part
  required : ∀ key part, location.required key = some part → ∃ child left,
    location.requiredChild key = .ok child ∧ cut.requiredChild key = .ok left ∧
      location.Remains child left
  optional : ∀ key part, location.optional key = .present part → ∃ child left,
    location.optionalChild key = some child ∧ cut.optionalChild key = some left ∧
      location.Remains child left
  /-- To cut it out again changes no range and no text. -/
  again : cut.detach = cut

/-- A part that was assigned can be asked for. -/
theorem Valid.requiredChild_eq (valid : location.Valid keys) {key : RequiredKey}
    (recorded : location.required key = some part) :
    location.requiredChild key = .ok { buffer := location.buffer, range := part } := by
  rw [Location.requiredChild, recorded]
  exact (ofRange_eq_ok_iff _ _ _).2 ⟨valid.required key part recorded, rfl⟩

theorem Valid.cutOut_detach (valid : location.Valid keys) : location.CutOut location.detach where
  buffer_eq := rfl
  source_eq := location.source_detach
  start_eq := rfl
  stop_eq := rfl
  unassigned_iff := fun _ => Option.map_eq_none_iff
  unset_iff := fun _ => Slot.map_eq_unset_iff
  absent_iff := fun _ => Slot.map_eq_absent_iff
  present_iff := fun _ => Slot.exists_map_eq_present_iff
  required := by
    intro key part recorded
    have moved : location.detach.required key =
        some (clip location.range part location.source.length) :=
      congrArg (Option.map _) recorded
    exact ⟨_, _, valid.requiredChild_eq recorded, valid.detach.requiredChild_eq moved,
      remains_clip valid.contains (valid.required key part recorded)⟩
  optional := by
    intro key part recorded
    have moved : location.detach.optional key =
        .present (clip location.range part location.source.length) :=
      congrArg (Slot.map _) recorded
    exact ⟨_, _, valid.optionalChild_eq recorded, valid.detach.optionalChild_eq moved,
      remains_clip valid.contains (valid.optional key part recorded)⟩
  again := location.detach_detach

/-- However a location was come by, it can be cut out, and its text and its parts are kept. -/
theorem Obtained.detach_keeps (obtained : Obtained location keys) :
    location.CutOut location.detach :=
  obtained.valid.cutOut_detach

/-- A declaration in a comment with parts in front of it, behind it, across its start and inside. -/
theorem detach_keeps_clipped :
    ∃ child, ∃ location : Location .classDecl,
      (Buffer.ofString "a.rb" "é日\nclass A").carve [⟨0, 1⟩, ⟨3, 10⟩] = .ok child ∧
        (do
          let bare ← ofRange child ⟨4, 8⟩
          let one ← bare.withRequired .keyword ⟨2, 7⟩
          let two ← one.withRequired .name ⟨0, 1⟩
          let three ← two.withRequired .finish ⟨8, 9⟩
          let four ← three.withOptional .lt (some ⟨5, 7⟩)
          four.withOptional .typeParams none) = Except.ok location ∧
        Obtained location [.finish, .name, .keyword] ∧ location.CutOut location.detach ∧
        location.detach.source = "ass ".toList ∧
        [.keyword, .name, .finish].map location.detach.required =
          [some ⟨0, 3⟩, some ⟨0, 0⟩, some ⟨4, 4⟩] ∧
        [.lt, .typeParams, .kind].map location.detach.optional =
          [.present ⟨1, 3⟩, .absent, .unset] := by
  let file := Buffer.ofString "a.rb" "é日\nclass A"
  let child := file.carved [⟨0, 1⟩, ⟨3, 10⟩]
  let bare : Location .classDecl := { buffer := child, range := ⟨4, 8⟩ }
  let one := bare.record .keyword ⟨2, 7⟩
  let two := one.record .name ⟨0, 1⟩
  let three := two.record .finish ⟨8, 9⟩
  let four := three.recordOptional .lt (some ⟨5, 7⟩)
  have carved : file.carve [⟨0, 1⟩, ⟨3, 10⟩] = .ok child := rfl
  have made : Obtained bare [] :=
    .ofRange (.carve (.file ..) carved) (rfl : ofRange child ⟨4, 8⟩ = .ok bare)
  have keyword : Obtained one [.keyword] :=
    .withRequired made (rfl : bare.withRequired .keyword ⟨2, 7⟩ = .ok one)
  have name : Obtained two [.name, .keyword] :=
    .withRequired keyword (rfl : one.withRequired .name ⟨0, 1⟩ = .ok two)
  have finish : Obtained three [.finish, .name, .keyword] :=
    .withRequired name (rfl : two.withRequired .finish ⟨8, 9⟩ = .ok three)
  have lt : Obtained four [.finish, .name, .keyword] :=
    .withOptional finish (rfl : three.withOptional .lt (some ⟨5, 7⟩) = .ok four)
  have typeParams : Obtained (four.recordOptional .typeParams none) [.finish, .name, .keyword] :=
    .withOptional lt
      (rfl : four.withOptional .typeParams none = .ok (four.recordOptional .typeParams none))
  exact ⟨child, _, carved, rfl, typeParams, typeParams.detach_keeps, by decide, by decide,
    by decide⟩

end Location

end Signet
