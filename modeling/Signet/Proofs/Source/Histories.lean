import Signet.Proofs.Source.Locations
import Signet.Proofs.Source.Spans

/-!
# What the operations on locations keep

However a location was come by, it selects a range of its buffer and its parts are ranges of that
buffer: nothing else can be built (`Obtained.valid`). Only `detach` sets ranges that nobody checks,
and it clips them (`fits_clip`). So what is answered where a range does not fit, such as the first
place of a file or its first byte, is never answered (`Obtained.dependable`).

An operation in place is the one that builds a new location, with the location left alone where that
one fails (`addRequired_cases`, `addOptional_cases`).
-/

namespace Signet.Location

open Text

/-! ## Histories -/

/-- The location comes from operations, some of which may have failed, and these are the required
parts that were assigned to it on the way. -/
inductive Obtained : {shape : Shape} → Location shape → List RequiredKey → Prop
  | ofRange {shape : Shape} {buffer : Buffer} {range : Range} {location : Location shape}
      (built : buffer.Built) (made : ofRange buffer range = .ok location) : Obtained location []
  | addRequired {shape : Shape} {location next : Location shape} {keys : List RequiredKey}
      {key : RequiredKey} {part : Range} (obtained : Obtained location keys)
      (added : (addRequired key part).run.run location = (.ok (), next)) :
      Obtained next (key :: keys)
  | failRequired {shape : Shape} {location next : Location shape} {keys : List RequiredKey}
      {key : RequiredKey} {part : Range} {error : LocationError}
      (obtained : Obtained location keys)
      (failed : (addRequired key part).run.run location = (.error error, next)) :
      Obtained next keys
  | addOptional {shape : Shape} {location next : Location shape} {keys : List RequiredKey}
      {key : OptionalKey} {found : Option Range} {outcome : Except LocationError Unit}
      (obtained : Obtained location keys)
      (ran : (addOptional key found).run.run location = (outcome, next)) : Obtained next keys
  | withRequired {shape : Shape} {location next : Location shape} {keys : List RequiredKey}
      {key : RequiredKey} {part : Range} (obtained : Obtained location keys)
      (assigned : location.withRequired key part = .ok next) : Obtained next (key :: keys)
  | withOptional {shape : Shape} {location next : Location shape} {keys : List RequiredKey}
      {key : OptionalKey} {found : Option Range} (obtained : Obtained location keys)
      (assigned : location.withOptional key found = .ok next) : Obtained next keys
  | requiredChild {shape : Shape} {location : Location shape} {keys : List RequiredKey}
      {key : RequiredKey} {child : Location .plain} (obtained : Obtained location keys)
      (asked : location.requiredChild key = .ok child) : Obtained child []
  | optionalChild {shape : Shape} {location : Location shape} {keys : List RequiredKey}
      {key : OptionalKey} {child : Location .plain} (obtained : Obtained location keys)
      (asked : location.optionalChild key = some child) : Obtained child []
  | plain {shape : Shape} {location : Location shape} {keys : List RequiredKey}
      (obtained : Obtained location keys) : Obtained location.plain []
  | cover {shape other : Shape} {location : Location shape} {keys : List RequiredKey}
      (obtained : Obtained location keys) (second : Location other) :
      Obtained (location.cover second) []
  | detach {shape : Shape} {location : Location shape} {keys : List RequiredKey}
      (obtained : Obtained location keys) : Obtained location.detach keys

variable {shape other : Shape} {buffer : Buffer} {range part : Range} {keys : List RequiredKey}
  {location next : Location shape}

/-! ## Changes in place -/

/-- A check and then a change: either both succeed, or nothing has changed. -/
theorem checked_cases {check : Except LocationError Unit} {changed : Location shape}
    {outcome : Except LocationError Unit}
    (ran : (do MonadExcept.ofExcept check; set changed : Edit shape Unit).run.run location =
      (outcome, next)) :
    (outcome = .ok () ∧ (do check; return changed) = Except.ok next) ∨
      ∃ error, outcome = .error error ∧ (do check; return changed) = Except.error error ∧
        next = location := by
  cases check with
  | ok =>
      obtain ⟨rfl, rfl⟩ := Prod.mk.inj ran
      exact .inl ⟨rfl, rfl⟩
  | error error =>
      obtain ⟨rfl, rfl⟩ := Prod.mk.inj ran
      exact .inr ⟨error, rfl, rfl, rfl⟩

/-- Assigning in place gives the location that assigning gives, or leaves it as it was. -/
theorem addRequired_cases {key : RequiredKey} {outcome : Except LocationError Unit}
    (ran : (addRequired key part).run.run location = (outcome, next)) :
    (outcome = .ok () ∧ location.withRequired key part = .ok next) ∨
      ∃ error, outcome = .error error ∧ location.withRequired key part = .error error ∧
        next = location :=
  checked_cases ran

theorem addOptional_cases {key : OptionalKey} {found : Option Range}
    {outcome : Except LocationError Unit}
    (ran : (addOptional key found).run.run location = (outcome, next)) :
    (outcome = .ok () ∧ location.withOptional key found = .ok next) ∨
      ∃ error, outcome = .error error ∧ location.withOptional key found = .error error ∧
        next = location :=
  checked_cases ran

/-- A part is refused only if it does not fit, and then the location is what it was. -/
theorem addRequired_refused {key : RequiredKey} {error : LocationError}
    (failed : (addRequired key part).run.run location = (.error error, next)) :
    next = location ∧ part.fits location.buffer.length = false := by
  rcases addRequired_cases failed with ⟨added, -⟩ | ⟨_, -, refused, rfl⟩
  · cases added
  · refine ⟨rfl, Bool.eq_false_iff.2 ?_⟩
    intro fits
    rw [withRequired_eq_ok_iff.2 ⟨fits, rfl⟩] at refused
    cases refused

/-- So is an optional part, and recording it as absent is never refused. -/
theorem addOptional_refused {key : OptionalKey} {found : Option Range} {error : LocationError}
    (failed : (addOptional key found).run.run location = (.error error, next)) :
    next = location ∧ ∃ part, found = some part ∧ part.fits location.buffer.length = false := by
  rcases addOptional_cases failed with ⟨added, -⟩ | ⟨_, -, refused, rfl⟩
  · cases added
  · refine ⟨rfl, ?_⟩
    by_contra none
    push Not at none
    have fits : ∀ part, found = some part → part.fits next.buffer.length = true := by
      intro part same
      exact (Bool.not_eq_false _).mp (none part same)
    rw [withOptional_eq_ok_iff.2 ⟨fits, rfl⟩] at refused
    cases refused

/-! ## What histories keep -/

/-- The location and its parts are ranges of a buffer that exists, and the parts with these keys are
the required ones that it has. -/
structure Valid (location : Location shape) (keys : List RequiredKey) : Prop where
  built : location.buffer.Built
  contains : location.buffer.contains location.range = true
  required : ∀ key part, location.required key = some part → location.buffer.contains part = true
  optional : ∀ key part, location.optional key = .present part →
    location.buffer.contains part = true
  assigned : ∀ key, key ∈ keys ↔ ∃ part, location.required key = some part

/-- A clipped part ends where the text does, if not before. -/
theorem fits_clip (whole part : Range) (length : Nat) :
    (clip whole part length).fits length = true := by
  rw [Range.fits_iff]
  unfold clip
  dsimp only
  omega

namespace Valid

/-- A range that fits is a location without parts. -/
theorem bare (built : buffer.Built) (contains : buffer.contains range = true) :
    Valid ({ buffer, range } : Location shape) [] :=
  ⟨built, contains, nofun, nofun, fun _ => ⟨nofun, nofun⟩⟩

theorem ofRange (built : buffer.Built)
    (made : (Location.ofRange buffer range : Except _ (Location shape)) = .ok location) :
    location.Valid [] := by
  obtain ⟨contains, rfl⟩ := (ofRange_eq_ok_iff buffer range location).1 made
  exact bare built contains

variable (valid : location.Valid keys)

include valid

theorem record (key : RequiredKey) (contains : location.buffer.contains part = true) :
    (location.record key part).Valid (key :: keys) where
  built := valid.built
  contains := valid.contains
  required := by
    intro other found recorded
    by_cases same : other = key
    · rw [same, required_record] at recorded
      exact Option.some.inj recorded ▸ contains
    · rw [required_record_of_ne location part same] at recorded
      exact valid.required other found recorded
  optional := valid.optional
  assigned := by
    intro other
    rw [List.mem_cons]
    by_cases same : other = key
    · exact ⟨fun _ => ⟨part, same ▸ required_record ..⟩, fun _ => .inl same⟩
    · rw [required_record_of_ne location part same, ← valid.assigned other]
      exact or_iff_right same

theorem recordOptional (key : OptionalKey) {found : Option Range}
    (contains : ∀ part, found = some part → location.buffer.contains part = true) :
    (location.recordOptional key found).Valid keys where
  built := valid.built
  contains := valid.contains
  required := valid.required
  optional := by
    intro other part recorded
    by_cases same : other = key
    · -- The part itself, unless it was recorded as absent.
      rw [same, optional_recordOptional] at recorded
      cases found with
      | none => cases recorded
      | some present =>
          obtain rfl := Slot.present.inj recorded
          exact contains present rfl
    · rw [optional_recordOptional_of_ne location found same] at recorded
      exact valid.optional other part recorded
  assigned := valid.assigned

theorem withRequired {key : RequiredKey} (assigned : location.withRequired key part = .ok next) :
    next.Valid (key :: keys) := by
  obtain ⟨contains, rfl⟩ := withRequired_eq_ok_iff.1 assigned
  exact valid.record key contains

theorem withOptional {key : OptionalKey} {found : Option Range}
    (assigned : location.withOptional key found = .ok next) : next.Valid keys := by
  obtain ⟨contains, rfl⟩ := withOptional_eq_ok_iff.1 assigned
  exact valid.recordOptional key contains

/-- A part is a location, since it fits the buffer. -/
theorem child (contains : location.buffer.contains part = true) :
    Valid ({ buffer := location.buffer, range := part } : Location .plain) [] :=
  bare valid.built contains

theorem requiredChild {key : RequiredKey} {child : Location .plain}
    (asked : location.requiredChild key = .ok child) : child.Valid [] := by
  unfold Location.requiredChild at asked
  split at asked
  · exact ofRange valid.built asked
  · cases asked

theorem optionalChild {key : OptionalKey} {child : Location .plain}
    (asked : location.optionalChild key = some child) : child.Valid [] := by
  obtain ⟨part, -, read⟩ := Option.bind_eq_some_iff.1 asked
  cases made : (Location.ofRange location.buffer part : Except _ (Location .plain)) with
  | error error => simp [made, Except.toOption] at read
  | ok other =>
      obtain rfl : other = child := by simpa [made, Except.toOption] using read
      exact ofRange valid.built made

/-- Where the range that covers both locations does not fit, the first one is taken alone. -/
theorem cover (second : Location other) : (location.cover second).Valid [] := by
  unfold Location.cover
  dsimp only
  generalize outcome :
    (Location.ofRange location.buffer _ : Except LocationError (Location .plain)) = made
  cases made with
  | ok whole => exact ofRange valid.built outcome
  | error error => exact valid.child valid.contains

/-- Nobody checks the parts of a location that is cut out, but they are clipped to its text. -/
theorem detach : location.detach.Valid keys where
  built := .file ..
  contains := Buffer.contains_all _
  required := by
    intro key part moved
    obtain ⟨old, -, rfl⟩ := Option.map_eq_some_iff.1 moved
    exact fits_clip ..
  optional := by
    intro key part moved
    have moved : (location.optional key).map (fun old =>
        clip location.range old location.source.length) = .present part := moved
    cases known : location.optional key with
    | unset => simp [known, Slot.map] at moved
    | absent => simp [known, Slot.map] at moved
    | present old =>
        rw [known] at moved
        obtain rfl := Slot.present.inj moved
        exact fits_clip ..
  assigned := by
    intro key
    rw [valid.assigned key]
    show (∃ part, location.required key = some part) ↔
      ∃ part, (location.required key).map _ = some part
    cases location.required key <;> simp

end Valid

/-- Every operation leads from valid locations to valid ones. -/
theorem Obtained.valid (obtained : Obtained location keys) : location.Valid keys := by
  induction obtained with
  | ofRange built made => exact .ofRange built made
  | addRequired _ added valid =>
      rcases addRequired_cases added with ⟨-, assigned⟩ | ⟨error, failed, -⟩
      · exact valid.withRequired assigned
      · cases failed
  | failRequired _ failed valid =>
      -- A part that was refused is not there: the location is the old one.
      rcases addRequired_cases failed with ⟨added, -⟩ | ⟨error, -, -, rfl⟩
      · cases added
      · exact valid
  | addOptional _ ran valid =>
      rcases addOptional_cases ran with ⟨-, assigned⟩ | ⟨error, -, -, rfl⟩
      · exact valid.withOptional assigned
      · exact valid
  | withRequired _ assigned valid => exact valid.withRequired assigned
  | withOptional _ assigned valid => exact valid.withOptional assigned
  | requiredChild _ asked valid => exact valid.requiredChild asked
  | optionalChild _ asked valid => exact valid.optionalChild asked
  | plain _ valid => exact valid.child valid.contains
  | cover _ second valid => exact valid.cover second
  | detach _ valid => exact valid.detach

/-! ## What may be relied on -/

/-- What is known of a location and of what it answers. No answer is one that is given where there
is none: the first place of a file, no text, its first byte, or no part where there is one. -/
structure Dependable (location : Location shape) (keys : List RequiredKey) : Prop where
  start_le : location.range.start ≤ location.range.stop
  stop_le : location.range.stop ≤ location.buffer.length
  required_fits : ∀ key part, location.required key = some part →
    part.fits location.buffer.length = true
  optional_fits : ∀ key part, location.optional key = .present part →
    part.fits location.buffer.length = true
  /-- A part is refused only if it does not fit, and then the location is what it was. -/
  required_refused : ∀ key part error next,
    (addRequired key part).run.run location = (.error error, next) →
      next = location ∧ part.fits location.buffer.length = false
  optional_refused : ∀ key found error next,
    (addOptional key found).run.run location = (.error error, next) →
      next = location ∧ ∃ part, found = some part ∧ part.fits location.buffer.length = false
  /-- A required part can be asked for exactly if it was assigned. -/
  requiredChild_iff : ∀ key, (∃ child, location.requiredChild key = .ok child) ↔ key ∈ keys
  optionalChild_eq : ∀ key part, location.optional key = .present part →
    location.optionalChild key = some { buffer := location.buffer, range := part }
  startPlace_eq : location.buffer.place location.range.start = .ok location.startPlace
  stopPlace_eq : location.buffer.place location.range.stop = .ok location.stopPlace
  source_eq : location.buffer.slice location.range = .ok location.source
  span_eq : ∃ start stop, location.buffer.ByteAt location.range.start start ∧
    location.buffer.ByteAt location.range.stop stop ∧ location.span = .between start stop

namespace Valid

variable (valid : location.Valid keys)

include valid

/-- A position of the buffer has a place, so the first one is not given in its stead. -/
theorem placeOf_eq {pos : Nat} (within : pos ≤ location.buffer.length) :
    location.buffer.place pos = .ok (location.placeOf pos) := by
  obtain ⟨position, found, -⟩ := valid.built.placed pos within
  rw [placeOf, Buffer.place, found]
  rfl

/-- A required part is refused only if it is not there, since those that are there fit. -/
theorem requiredChild_iff (key : RequiredKey) :
    (∃ child, location.requiredChild key = .ok child) ↔ key ∈ keys := by
  rw [valid.assigned key]
  constructor
  · rintro ⟨child, asked⟩
    unfold Location.requiredChild at asked
    split at asked
    · exact ⟨_, ‹_›⟩
    · cases asked
  · rintro ⟨part, recorded⟩
    exact exists_requiredChild recorded (valid.required key part recorded)

theorem optionalChild_eq {key : OptionalKey} (recorded : location.optional key = .present part) :
    location.optionalChild key = some { buffer := location.buffer, range := part } := by
  have fits := valid.optional key part recorded
  have made : (Location.ofRange location.buffer part : Except _ (Location .plain)) = .ok _ :=
    (ofRange_eq_ok_iff _ _ _).2 ⟨fits, rfl⟩
  rw [Location.optionalChild, recorded]
  show (Location.ofRange location.buffer part).toOption = _
  rw [made]
  rfl

theorem to_dependable : location.Dependable keys := by
  obtain ⟨le, within⟩ := (Buffer.contains_iff _ _).1 valid.contains
  have before := Nat.le_trans le within
  exact
    { start_le := le
      stop_le := within
      required_fits := valid.required
      optional_fits := valid.optional
      required_refused := fun _ _ _ _ => addRequired_refused
      optional_refused := fun _ _ _ _ => addOptional_refused
      requiredChild_iff := valid.requiredChild_iff
      optionalChild_eq := fun _ _ => valid.optionalChild_eq
      startPlace_eq := valid.placeOf_eq before
      stopPlace_eq := valid.placeOf_eq within
      source_eq := (Buffer.slice_eq_ok_iff _ _ _).2
        ⟨valid.contains, (location.source_of_contains valid.contains).symm⟩
      span_eq := ⟨_, _, valid.built.byteAt_topByte before, valid.built.byteAt_topByte within, rfl⟩ }

end Valid

/-- However a location was come by, it may be relied on. -/
theorem Obtained.dependable (obtained : Obtained location keys) : location.Dependable keys :=
  obtained.valid.to_dependable

/-- A declaration in a comment: one of its parts stands outside of it and another is refused, and
then it is cut out. -/
theorem dependable_detached :
    ∃ child, ∃ first assigned detached : Location .classDecl,
      (Buffer.ofString "a.rb" "é日\nclass A").carve [⟨0, 1⟩, ⟨3, 10⟩] = .ok child ∧
        ofRange child ⟨2, 9⟩ = .ok first ∧
        (do
          addRequired .keyword ⟨2, 7⟩
          addRequired .name ⟨0, 1⟩
          addOptional .lt (some ⟨8, 9⟩) : Edit .classDecl Unit).run.run first =
            (.ok (), assigned) ∧
        (addRequired .finish ⟨8, 10⟩).run.run assigned =
          (.error (.invalidRange "a.rb" ⟨8, 10⟩ 9), assigned) ∧
        assigned.detach = detached ∧ Obtained detached [.name, .keyword] ∧
        detached.Dependable [.name, .keyword] ∧ detached.source = "class A".toList ∧
        [.keyword, .name, .finish].map detached.required = [some ⟨0, 5⟩, some ⟨0, 0⟩, none] := by
  let file := Buffer.ofString "a.rb" "é日\nclass A"
  let child := file.carved [⟨0, 1⟩, ⟨3, 10⟩]
  let first : Location .classDecl := { buffer := child, range := ⟨2, 9⟩ }
  let named := (first.record .keyword ⟨2, 7⟩).record .name ⟨0, 1⟩
  let assigned := named.recordOptional .lt (some ⟨8, 9⟩)
  have carved : file.carve [⟨0, 1⟩, ⟨3, 10⟩] = .ok child := rfl
  have made : ofRange child ⟨2, 9⟩ = .ok first := rfl
  have opened : Obtained first [] := .ofRange (.carve (.file ..) carved) made
  have keyword : (addRequired .keyword ⟨2, 7⟩).run.run first =
      (.ok (), first.record .keyword ⟨2, 7⟩) := rfl
  have name : (addRequired .name ⟨0, 1⟩).run.run (first.record .keyword ⟨2, 7⟩) =
      (.ok (), named) := rfl
  have lt : (addOptional .lt (some ⟨8, 9⟩)).run.run named = (.ok (), assigned) := rfl
  have refused : (addRequired .finish ⟨8, 10⟩).run.run assigned =
      (.error (.invalidRange "a.rb" ⟨8, 10⟩ 9), assigned) := rfl
  have changed : Obtained assigned [.name, .keyword] :=
    .addOptional (.addRequired (.addRequired opened keyword) name) lt
  have obtained : Obtained assigned.detach [.name, .keyword] :=
    .detach (.failRequired changed refused)
  exact ⟨child, first, assigned, assigned.detach, carved, made, rfl, refused, rfl, obtained,
    obtained.dependable, by decide, by decide⟩

end Signet.Location
