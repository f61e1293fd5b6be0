import Signet.Source.Error
import Signet.Text.Lines
import Signet.Text.Offset
import Signet.Text.Quoted

/-! # Buffers

A *file* is a named text. A *carved* buffer is a text made of ranges of another buffer, one per
line, for instance the text of a comment block without its markers: it can be read as a document
of its own, while `absolute` still takes each of its positions back to the file.

A carved buffer holds its parent and the ranges; its text and its positions are computed from
them, so they cannot disagree. `carve` admits only ranges that the parent has.
-/

namespace Signet

open Text

/-- A text to read from: a file, or lines carved out of another buffer. -/
inductive Buffer where
  | file (name : String) (content : List Char)
  | carved (parent : Buffer) (ranges : List Range)

namespace Buffer

/-- The buffer as a whole of a text given as a string. -/
def ofString (name content : String) : Buffer := .file name content.toList

/-! ## Content -/

/-- The file at the end of the chain of parents. -/
def top : Buffer → Buffer
  | file name content => file name content
  | carved parent _ => parent.top

/-- The name of the file. -/
def name : Buffer → String
  | file name _ => name
  | carved parent _ => parent.name

/-- The text that has each of the ranges of a text as a line. -/
def joinRanges (text : List Char) (ranges : List Range) : List Char :=
  ['\n'].intercalate (ranges.map fun range => text.extract range.start range.stop)

/-- The text. That of a carved buffer has the text of each range as a line. -/
def content : Buffer → List Char
  | file _ content => content
  | carved parent ranges => joinRanges parent.content ranges

/-- Length in characters. -/
def length (buffer : Buffer) : Nat := buffer.content.length

/-- The buffer that this one was carved out of. -/
def parent? : Buffer → Option Buffer
  | file .. => none
  | carved parent _ => some parent

/-- The range selects characters of the buffer. -/
def contains (buffer : Buffer) (range : Range) : Bool := range.fits buffer.length

/-- The whole buffer. -/
def all (buffer : Buffer) : Range := ⟨0, buffer.length⟩

/-- Succeeds if the range selects characters of the buffer. -/
def checkRange (buffer : Buffer) (range : Range) : Except LocationError Unit :=
  if buffer.contains range then .ok ()
  else .error (.invalidRange buffer.name range buffer.length)

/-- Succeeds if the position lies in the buffer or at its end. -/
def checkPosition (buffer : Buffer) (pos : Nat) : Except LocationError Unit :=
  if pos ≤ buffer.length then .ok () else .error (.outOfRange buffer.name pos buffer.length)

/-- The text that a range selects. -/
def slice (buffer : Buffer) (range : Range) : Except LocationError (List Char) := do
  buffer.checkRange range
  return buffer.content.extract range.start range.stop

/-- The buffer whose lines are ranges of this one. At least one range is needed, and the first
range that does not fit is blamed. -/
def carve (buffer : Buffer) (ranges : List Range) : Except LocationError Buffer := do
  if ranges.isEmpty then throw (.emptyChildBuffer buffer.name)
  ranges.forM buffer.checkRange
  return .carved buffer ranges

/-- A range is admitted exactly if it fits. -/
theorem checkRange_eq_ok_iff (buffer : Buffer) (range : Range) :
    buffer.checkRange range = .ok () ↔ range.fits buffer.length = true := by
  unfold checkRange contains
  by_cases h : range.fits buffer.length <;> simp [h]

/-- A slice is the text that a fitting range selects. -/
theorem slice_eq_ok_iff (buffer : Buffer) (range : Range) (text : List Char) :
    buffer.slice range = .ok text ↔
      range.fits buffer.length = true ∧ buffer.content.extract range.start range.stop = text := by
  unfold slice checkRange contains
  by_cases h : range.fits buffer.length <;> simp [h, bind, Except.bind, pure, Except.pure]

/-! ## Positions -/

/-- Where ranges begin in the carved lines if the first one begins at a given position. -/
def rangeStartsFrom (start : Nat) : List Range → List Nat
  | [] => []
  | range :: ranges => start :: rangeStartsFrom (start + range.length + 1) ranges

/-- Where ranges begin in the carved lines. -/
def rangeStarts (ranges : List Range) : List Nat := rangeStartsFrom 0 ranges

/-- The position of the parent that a position of the carved lines stands for: it is in the last
range that does not begin behind it. The separator after a range stands for the end of the range. -/
def project? (ranges : List Range) (pos : Nat) : Option Nat := do
  let index := Table.lastUpTo (rangeStarts ranges) pos
  let range ← ranges[index]?
  let start ← (rangeStarts ranges)[index]?
  return range.start + (pos - start)

/-- The position of the file that a position of the buffer stands for. -/
def absolute : Buffer → Nat → Except LocationError Nat
  | file name content, pos => do
    (file name content).checkPosition pos
    return pos
  | carved parent ranges, pos => do
    (carved parent ranges).checkPosition pos
    match project? ranges pos with
    | some position => parent.absolute position
    | none => throw (.outOfRange (carved parent ranges).name pos (carved parent ranges).length)

/-- Line and column of a position, in the file. -/
def place (buffer : Buffer) (pos : Nat) : Except LocationError Place := do
  return placeAt buffer.top.content (← buffer.absolute pos)

/-- Number of lines. -/
def lineCount (buffer : Buffer) : Nat := (lineStarts buffer.content).length

/-- Where a line ends: before the newline that the next line begins behind, or with the buffer. -/
def lineStop (buffer : Buffer) (index : Nat) : Nat :=
  match (lineStarts buffer.content)[index + 1]? with
  | some next => next - 1
  | none => buffer.length

/-- The text of a line, counted from 1. -/
def line? (buffer : Buffer) : Nat → Option (List Char)
  | 0 => none
  | index + 1 => do
    let start ← (lineStarts buffer.content)[index]?
    (buffer.slice ⟨start, buffer.lineStop index⟩).toOption

/-- The character that holds a byte. -/
def charOfByte (buffer : Buffer) (byte : Nat) : Nat := Text.charOfByte buffer.content byte

/-- The byte at which a character begins. -/
def byteOfChar (buffer : Buffer) (pos : Nat) : Except LocationError Nat :=
  match (charOffsets buffer.content)[pos]? with
  | some byte => .ok byte
  | none => .error (.outOfRange buffer.name pos buffer.length)

/-- The text that stands at some bytes; nothing if they do not begin and end with characters. -/
def textAtBytes? (buffer : Buffer) (bytes : Range) : Option (List Char) :=
  let range : Range := ⟨buffer.charOfByte bytes.start, buffer.charOfByte bytes.stop⟩
  if bytes.start ≤ bytes.stop && Text.byteOfChar buffer.content range.start = bytes.start
      && Text.byteOfChar buffer.content range.stop = bytes.stop then
    some (buffer.content.extract range.start range.stop)
  else none

/-- The byte of the file that a position stands for; 0 for a position that does not exist. -/
def topByte (buffer : Buffer) (pos : Nat) : Nat :=
  match buffer.absolute pos with
  | .ok absolute => Text.byteOfChar buffer.top.content absolute
  | .error _ => 0

/-- A short description for logs. -/
def describe (buffer : Buffer) : String :=
  "Buffer \x7b name: " ++ String.ofList (quote buffer.name.toList) ++ ", len: "
    ++ toString buffer.length ++ ", child: " ++ toString buffer.parent?.isSome ++ " \x7d"

end Buffer

end Signet
