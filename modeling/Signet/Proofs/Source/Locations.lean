import Signet.Source.Location

/-!
# Parts of locations

A location is complete if all required parts of its shape can be asked for and each optional one is
known to be there or not. A location is built part by part, and every part that is assigned fits the
buffer (`Location.Has`), so it is complete as soon as each key of its shape was assigned
(`Location.Has.complete`).
-/

namespace Signet.Location

variable {shape : Shape} {buffer : Buffer} {range part : Range} {keys allKeys : List RequiredKey}
  {options allOptions : List OptionalKey} {location next : Location shape}

/-- All required parts are there, and the optional ones are there or absent. -/
structure Complete (location : Location shape) : Prop where
  required : ∀ key ∈ shape.required, ∃ part, location.requiredChild key = .ok part
  optional : ∀ key ∈ shape.optional,
    location.optional key = .absent ∨ ∃ part, location.optionalChild key = some part

/-- The location of a range of a buffer with some required parts and with some optional ones that
are there or absent. -/
structure Has (buffer : Buffer) (range : Range) (keys : List RequiredKey)
    (options : List OptionalKey) (location : Location shape) : Prop where
  buffer_eq : location.buffer = buffer
  range_eq : location.range = range
  required : ∀ key ∈ keys, ∃ part, location.requiredChild key = .ok part
  optional : ∀ key ∈ options,
    location.optional key = .absent ∨ ∃ part, location.optionalChild key = some part

theorem Has.complete (has : location.Has buffer range keys options)
    (all : shape.required ⊆ keys) (every : shape.optional ⊆ options) : location.Complete where
  required := fun key member => has.required key (all member)
  optional := fun key member => has.optional key (every member)

/-- A part that was recorded and fits the buffer can be asked for. -/
theorem exists_requiredChild {key : RequiredKey} (recorded : location.required key = some part)
    (fits : part.fits location.buffer.length = true) :
    ∃ child, location.requiredChild key = .ok child := by
  rw [requiredChild, recorded]
  exact ⟨_, (ofRange_eq_ok_iff _ _ _).2 ⟨fits, rfl⟩⟩

/-- So can an optional one. -/
theorem exists_optionalChild {key : OptionalKey} (recorded : location.optional key = .present part)
    (fits : part.fits location.buffer.length = true) :
    ∃ child, location.optionalChild key = some child := by
  have found : (ofRange location.buffer part : Except _ (Location .plain)) = .ok _ :=
    (ofRange_eq_ok_iff _ _ _).2 ⟨fits, rfl⟩
  simp [optionalChild, recorded, Slot.range?, found, Except.toOption]

/-! ## Building -/

theorem checkRange_bind_eq_ok_iff :
    (do buffer.checkRange part; return location) = Except.ok next ↔
      part.fits buffer.length = true ∧ next = location := by
  rw [← buffer.checkRange_eq_ok_iff part]
  cases buffer.checkRange part with
  | ok => simp [bind, Except.bind, pure, Except.pure, eq_comm]
  | error => simp [bind, Except.bind]

/-- A required part is assigned exactly if it fits the buffer. -/
theorem withRequired_eq_ok_iff {key : RequiredKey} : location.withRequired key part = .ok next ↔
    part.fits location.buffer.length = true ∧ next = location.record key part :=
  checkRange_bind_eq_ok_iff

/-- So is an optional part, unless it is recorded as absent. -/
theorem withOptional_eq_ok_iff {key : OptionalKey} {found : Option Range} :
    location.withOptional key found = .ok next ↔
      (∀ present, found = some present → present.fits location.buffer.length = true) ∧
        next = location.recordOptional key found := by
  cases found with
  | none => exact ⟨fun same => ⟨nofun, (Except.ok.inj same).symm⟩, fun both => both.2 ▸ rfl⟩
  | some present =>
      have checked : location.withOptional key (some present) = .ok next ↔ _ :=
        checkRange_bind_eq_ok_iff
      rw [checked]
      simp

theorem Has.withRequired (has : location.Has buffer range keys options) {key : RequiredKey}
    (assigned : location.withRequired key part = .ok next) :
    next.Has buffer range (key :: keys) options := by
  obtain ⟨fits, rfl⟩ := withRequired_eq_ok_iff.1 assigned
  refine ⟨has.buffer_eq, has.range_eq, ?_, has.optional⟩
  refine List.forall_mem_cons.2 ⟨exists_requiredChild (required_record ..) fits, ?_⟩
  intro other member
  by_cases same : other = key
  · exact same ▸ exists_requiredChild (required_record ..) fits
  · unfold requiredChild
    rw [required_record_of_ne location part same]
    exact has.required other member

theorem Has.withOptional (has : location.Has buffer range keys options) {key : OptionalKey}
    {found : Option Range} (assigned : location.withOptional key found = .ok next) :
    next.Has buffer range keys (key :: options) := by
  obtain ⟨fits, rfl⟩ := withOptional_eq_ok_iff.1 assigned
  have here : (location.recordOptional key found).optional key = .absent ∨
      ∃ part, (location.recordOptional key found).optionalChild key = some part := by
    cases found with
    | none => exact .inl (optional_recordOptional ..)
    | some present =>
        exact .inr (exists_optionalChild (optional_recordOptional ..) (fits present rfl))
  refine ⟨has.buffer_eq, has.range_eq, has.required, List.forall_mem_cons.2 ⟨here, ?_⟩⟩
  intro other member
  by_cases same : other = key
  · exact same ▸ here
  · unfold optionalChild
    rw [optional_recordOptional_of_ne location found same]
    exact has.optional other member

/-! ## Computations -/

/-- A location that is computed has these parts. -/
def Builds (buffer : Buffer) (range : Range) (keys : List RequiredKey)
    (options : List OptionalKey) (result : Except LocationError (Location shape)) : Prop :=
  ∀ location, result = .ok location → location.Has buffer range keys options

namespace Builds

theorem ok (has : location.Has buffer range keys options) :
    Builds buffer range keys options (.ok location) := by
  intro other found
  obtain rfl := Except.ok.inj found
  exact has

/-- First some parts and then more. -/
theorem bind {result : Except LocationError (Location shape)}
    {rest : Location shape → Except LocationError (Location shape)}
    (one : Builds buffer range keys options result)
    (two : ∀ location : Location shape, location.Has buffer range keys options →
      Builds buffer range allKeys allOptions (rest location)) :
    Builds buffer range allKeys allOptions (result >>= rest) := by
  cases result with
  | ok location => exact two location (one location rfl)
  | error error => exact fun _ found => nomatch found

theorem ofRange (buffer : Buffer) (range : Range) :
    Builds buffer range [] [] (ofRange buffer range : Except _ (Location shape)) := by
  intro location found
  obtain ⟨-, rfl⟩ := (ofRange_eq_ok_iff _ _ location).1 found
  exact ⟨rfl, rfl, nofun, nofun⟩

theorem required (has : location.Has buffer range keys options) (key : RequiredKey)
    (part : Range) : Builds buffer range (key :: keys) options
      (location.withRequired key part) :=
  fun _ => has.withRequired

theorem optional (has : location.Has buffer range keys options) (key : OptionalKey)
    (found : Option Range) : Builds buffer range keys (key :: options)
      (location.withOptional key found) :=
  fun _ => has.withOptional

end Builds

end Signet.Location
