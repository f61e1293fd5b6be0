import Signet.Source.Buffer

/-! # Locations

A location is a range of a buffer with named parts inside it, such as the keyword and the name of
a declaration. Its *shape* says which parts: required ones, which every such location has once it
is published, and optional ones, which may be recorded as absent.

Every operation that sets a range checks it against the buffer or clips it, so a location that was
built by them lies within its buffer, and so do its parts.
-/

namespace Signet

open Text

/-- What a location is a location of. -/
inductive Shape where
  | plain
  | classDecl
  | moduleDecl
  | method
  | mixin
  | attr
  | typeParam
deriving DecidableEq, Repr

/-- Parts that every location of a shape has. -/
inductive RequiredKey where
  | keyword
  | name
  | finish
deriving DecidableEq, Repr

/-- Parts that a location of a shape may have. -/
inductive OptionalKey where
  | typeParams
  | lt
  | colon
  | selfTypes
  | kind
  | overloading
  | visibility
  | args
  | type
  | variance
  | unchecked
  | upperBound
  | default
deriving DecidableEq, Repr

namespace RequiredKey

/-- The name of a required part. -/
def label : RequiredKey → String
  | keyword => "keyword"
  | name => "name"
  | finish => "end"

end RequiredKey

namespace OptionalKey

/-- The name of an optional part. -/
def label : OptionalKey → String
  | typeParams => "type_params"
  | lt => "lt"
  | colon => "colon"
  | selfTypes => "self_types"
  | kind => "kind"
  | overloading => "overloading"
  | visibility => "visibility"
  | args => "args"
  | type => "type"
  | variance => "variance"
  | unchecked => "unchecked"
  | upperBound => "upper_bound"
  | default => "default"

end OptionalKey

namespace Shape

/-- The required parts of a shape. -/
def required : Shape → List RequiredKey
  | plain => []
  | classDecl => [.keyword, .name, .finish]
  | moduleDecl => [.keyword, .name, .finish]
  | method => [.keyword, .name]
  | mixin => [.name]
  | attr => [.keyword, .name]
  | typeParam => [.name]

/-- The optional parts of a shape. -/
def optional : Shape → List OptionalKey
  | plain => []
  | classDecl => [.typeParams, .lt]
  | moduleDecl => [.typeParams, .colon, .selfTypes]
  | method => [.kind, .overloading, .visibility]
  | mixin => [.args]
  | attr => [.type]
  | typeParam => [.variance, .unchecked, .upperBound, .default]

end Shape

/-- What is known of an optional part. -/
inductive Slot where
  | unset
  | absent
  | present (range : Range)
deriving DecidableEq, Repr

namespace Slot

/-- A part that was looked for: present where found, otherwise absent. -/
def ofOption : Option Range → Slot
  | some range => present range
  | none => absent

/-- The range of a part that is present. -/
def range? : Slot → Option Range
  | present range => some range
  | _ => none

/-- A part that is present, moved. -/
def map (f : Range → Range) : Slot → Slot
  | present range => present (f range)
  | slot => slot

end Slot

/-- A range of a buffer with the named parts of a shape. -/
structure Location (shape : Shape) where
  buffer : Buffer
  range : Range
  required : RequiredKey → Option Range := fun _ => none
  optional : OptionalKey → Slot := fun _ => .unset

namespace Location

variable {shape : Shape}

/-! ## Building -/

/-- The location of a range, without parts. -/
def ofRange (buffer : Buffer) (range : Range) : Except LocationError (Location shape) := do
  buffer.checkRange range
  return { buffer, range }

/-- The location with a required part recorded, on trust. -/
def record (location : Location shape) (key : RequiredKey) (range : Range) : Location shape :=
  { location with
    required := fun other => if other = key then some range else location.required other }

/-- The location with an optional part recorded as found or as absent, on trust. -/
def recordOptional (location : Location shape) (key : OptionalKey) (range : Option Range) :
    Location shape :=
  { location with
    optional := fun other => if other = key then .ofOption range else location.optional other }

/-- Only a range that fits has a location. -/
theorem ofRange_eq_ok_iff (buffer : Buffer) (range : Range) (location : Location shape) :
    ofRange buffer range = .ok location ↔
      range.fits buffer.length = true ∧ location = { buffer, range } := by
  unfold ofRange Buffer.checkRange Buffer.contains
  by_cases h : range.fits buffer.length <;>
    simp [h, bind, Except.bind, pure, Except.pure, eq_comm]

/-- A part that was just recorded is there. -/
@[simp] theorem required_record (location : Location shape) (key : RequiredKey) (range : Range) :
    (location.record key range).required key = some range := by
  simp [record]

/-- Recording a part leaves the others alone. -/
theorem required_record_of_ne (location : Location shape) {key other : RequiredKey} (range : Range)
    (h : other ≠ key) : (location.record key range).required other = location.required other := by
  simp [record, h]

/-- An optional part that was just recorded is there or absent. -/
@[simp] theorem optional_recordOptional (location : Location shape) (key : OptionalKey)
    (range : Option Range) :
    (location.recordOptional key range).optional key = .ofOption range := by
  simp [recordOptional]

/-- Recording an optional part leaves the others alone. -/
theorem optional_recordOptional_of_ne (location : Location shape) {key other : OptionalKey}
    (range : Option Range) (h : other ≠ key) :
    (location.recordOptional key range).optional other = location.optional other := by
  simp [recordOptional, h]

/-- The location with a required part assigned. -/
def withRequired (location : Location shape) (key : RequiredKey) (range : Range) :
    Except LocationError (Location shape) := do
  location.buffer.checkRange range
  return location.record key range

/-- The location with an optional part assigned, or recorded as absent. -/
def withOptional (location : Location shape) (key : OptionalKey) (range : Option Range) :
    Except LocationError (Location shape) := do
  range.forM location.buffer.checkRange
  return location.recordOptional key range

/-- A change of a location in place, which may fail on the way. -/
abbrev Edit (shape : Shape) := ExceptT LocationError (StateM (Location shape))

/-- Assigns a required part in place. -/
def addRequired (key : RequiredKey) (range : Range) : Edit shape Unit := do
  let location ← get
  MonadExcept.ofExcept (location.buffer.checkRange range)
  set (location.record key range)

/-- Assigns an optional part in place, or records it as absent. -/
def addOptional (key : OptionalKey) (range : Option Range) : Edit shape Unit := do
  let location ← get
  MonadExcept.ofExcept (range.forM location.buffer.checkRange)
  set (location.recordOptional key range)

/-! ## Reading -/

/-- The text that the location selects; no text if its range does not fit. -/
def source (location : Location shape) : List Char :=
  (location.buffer.slice location.range).toOption.getD []

/-- A range that fits selects its text. -/
theorem source_of_contains (location : Location shape)
    (contains : location.buffer.contains location.range = true) :
    location.source =
      location.buffer.content.extract location.range.start location.range.stop := by
  rw [source, (location.buffer.slice_eq_ok_iff location.range _).2 ⟨contains, rfl⟩]
  rfl

/-- The place of a position of the location's buffer; the first one if there is none. -/
def placeOf (location : Location shape) (pos : Nat) : Place :=
  (location.buffer.place pos).toOption.getD ⟨1, 0⟩

/-- Where the location starts in the file. -/
def startPlace (location : Location shape) : Place := location.placeOf location.range.start

/-- Where the location stops in the file. -/
def stopPlace (location : Location shape) : Place := location.placeOf location.range.stop

/-- The bytes of the file between the ends of the location. -/
def span (location : Location shape) : Span :=
  .between (location.buffer.topByte location.range.start)
    (location.buffer.topByte location.range.stop)

/-- The same range without parts. -/
def plain (location : Location shape) : Location .plain :=
  { buffer := location.buffer, range := location.range }

/-- The location of a required part. It must have been assigned. -/
def requiredChild (location : Location shape) (key : RequiredKey) :
    Except LocationError (Location .plain) :=
  match location.required key with
  | some range => ofRange location.buffer range
  | none => .error (.requiredChildNotSet key.label)

/-- The location of an optional part, if it is present. -/
def optionalChild (location : Location shape) (key : OptionalKey) : Option (Location .plain) := do
  let range ← (location.optional key).range?
  (ofRange location.buffer range).toOption

/-! ## Combining -/

/-- The smallest location of this buffer that covers both ranges. The ranges are compared as
numbers: where the other one does not fit this buffer, the location covers only itself. -/
def cover {other : Shape} (location : Location shape) (second : Location other) :
    Location .plain :=
  let range : Range :=
    ⟨min location.range.start second.range.start, max location.range.stop second.range.stop⟩
  ((ofRange location.buffer range).toOption).getD location.plain

/-- A part of a location, counted from the start of the location and clipped to its length. -/
def clip (whole part : Range) (length : Nat) : Range :=
  let start := min (part.start - whole.start) length
  ⟨start, min (max (part.stop - whole.start) start) length⟩

/-- The same text as a file of its own, with the parts moved along. -/
def detach (location : Location shape) : Location shape :=
  let text := location.source
  { buffer := .file location.buffer.name text
    range := ⟨0, text.length⟩
    required := fun key =>
      (location.required key).map fun part => clip location.range part text.length
    optional := fun key =>
      (location.optional key).map fun part => clip location.range part text.length }

/-! ## Text form -/

/-- File, first place and last place. -/
def print (location : Location shape) : String :=
  let first := location.startPlace
  let last := location.stopPlace
  location.buffer.name ++ ":" ++ toString first.line ++ ":" ++ toString first.column ++ "..."
    ++ toString last.line ++ ":" ++ toString last.column

/-- A location that may be missing. -/
def printOption : Option (Location shape) → String
  | some location => location.print
  | none => "*:*:*...*:*"

end Location

end Signet
