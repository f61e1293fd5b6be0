import Signet.Grammar.Match
import Signet.Reading.Error
import Signet.Source.Location

/-! # Excerpts

What is read is an excerpt of a buffer: the text of one of its ranges. Parse trees count from the
start of the excerpt; an excerpt takes their ranges to the buffer and to the file.
-/

namespace Signet

open Text Grammar

/-- The characters of a tree without the blanks at its end. -/
def Grammar.ParseTree.range (tree : ParseTree) : Range :=
  ⟨tree.start, tree.start + (trimEnd tree.text).length⟩

/-- A range of a buffer to read. -/
structure Excerpt where
  buffer : Buffer
  base : Nat
  text : List Char

namespace Excerpt

/-- The excerpt of a range. -/
def ofRange (buffer : Buffer) (range : Range) : Except LocationError Excerpt := do
  let text ← buffer.slice range
  return ⟨buffer, range.start, text⟩

/-- The range of the buffer that a tree covers. -/
def range (excerpt : Excerpt) (tree : ParseTree) : Range := tree.range.shift excerpt.base

/-- The location of a range of the buffer, without parts. -/
def locate {shape : Shape} (excerpt : Excerpt) (range : Range) : Location shape :=
  { buffer := excerpt.buffer, range }

/-- The location of a tree, without parts. -/
def location {shape : Shape} (excerpt : Excerpt) (tree : ParseTree) : Location shape :=
  excerpt.locate (excerpt.range tree)

/-- The bytes of the file that a range of the excerpt stands for. -/
def span (excerpt : Excerpt) (range : Range) : Span :=
  (excerpt.locate (range.shift excerpt.base) : Location .plain).span

/-- The error of a fault in the excerpt. -/
def refuse (excerpt : Excerpt) (fault : Fault) : ParseError :=
  .refused fault.cause (excerpt.span fault.range)

/-- The error of a text that stops being grammatical. The label starts at the character where it
stops and ends at the next byte, rounded down to a character. -/
def unexpected (excerpt : Excerpt) (stop : Stop) : ParseError :=
  let next := charOfByte excerpt.text (byteOfChar excerpt.text stop.pos + 1)
  .refused (.unexpectedInput stop.expected)
    (.between (excerpt.buffer.topByte (excerpt.base + stop.pos))
      (excerpt.buffer.topByte (excerpt.base + next)))

/-- Reads the excerpt: parses it as a rule and gives the tree a meaning. -/
def read {α : Type} (excerpt : Excerpt) (rule : Rule) (meaning : ParseTree → Except Fault α) :
    Except ParseError α :=
  match parse rule excerpt.text with
  | .error stop => .error (excerpt.unexpected stop)
  | .ok tree => (meaning tree).mapError excerpt.refuse

end Excerpt

end Signet
