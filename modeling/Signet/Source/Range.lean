/-! # Ranges and spans

A *range* selects characters of a buffer by a start and a stop offset. A *span* selects bytes of
the UTF-8 form of a file by an offset and a length. Ranges are what the library computes with,
spans are what reports point at.
-/

namespace Signet

/-- The characters from `start` up to, but not including, `stop`. -/
structure Range where
  start : Nat
  stop : Nat
deriving DecidableEq, Repr, Inhabited

namespace Range

/-- The empty range at a position. -/
def point (pos : Nat) : Range := ⟨pos, pos⟩

/-- Number of characters selected. -/
def length (range : Range) : Nat := range.stop - range.start

/-- The range is not reversed and ends within a text of the given length. -/
def fits (range : Range) (length : Nat) : Bool := range.start ≤ range.stop && range.stop ≤ length

/-- The range moved to the right. -/
def shift (range : Range) (offset : Nat) : Range := ⟨range.start + offset, range.stop + offset⟩

/-- From the start of the first range to the stop of the second. -/
def through (first last : Range) : Range := ⟨first.start, last.stop⟩

theorem fits_iff (range : Range) (length : Nat) :
    range.fits length = true ↔ range.start ≤ range.stop ∧ range.stop ≤ length := by
  simp [fits]

end Range

/-- Bytes of a file: `length` of them from `offset` on. -/
structure Span where
  offset : Nat
  length : Nat
deriving DecidableEq, Repr, Inhabited

/-- The span between two byte offsets; empty at the first if they are reversed. -/
def Span.between (start stop : Nat) : Span := ⟨start, stop - start⟩

end Signet
