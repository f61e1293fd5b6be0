import Signet.Text.Ranges

/-! # Blank characters

Two classes of blanks are in use. *White space* is the Unicode property `White_Space`: it decides
where a text is trimmed. The *spacing* of the signature grammar is narrower: space, tab and the two
line terminators.
-/

namespace Signet.Text

/-- The Unicode property `White_Space`. -/
def blankRanges : Ranges :=
  [(0x9, 0xD), (0x20, 0x20), (0x85, 0x85), (0xA0, 0xA0), (0x1680, 0x1680), (0x2000, 0x200A),
   (0x2028, 0x2029), (0x202F, 0x202F), (0x205F, 0x205F), (0x3000, 0x3000)]

/-- White space, in the sense of trimming. -/
def isBlank (c : Char) : Bool := blankRanges.has c

/-- The four characters the signature grammar skips between tokens. -/
def isSpacing (c : Char) : Bool := c = ' ' || c = '\t' || c = '\r' || c = '\n'

/-- Every spacing character is white space, so trimming removes it. -/
theorem isBlank_of_isSpacing {c : Char} (h : isSpacing c = true) : isBlank c = true := by
  simp only [isSpacing, Bool.or_eq_true, decide_eq_true_eq] at h
  rcases h with ((rfl | rfl) | rfl) | rfl <;> decide

/-- The text without leading white space. -/
def trimStart (text : List Char) : List Char := text.dropWhile isBlank

/-- The text without trailing white space. -/
def trimEnd (text : List Char) : List Char := (text.reverse.dropWhile isBlank).reverse

/-- Trimming the end takes nothing from the front. -/
theorem trimEnd_prefix (text : List Char) : trimEnd text <+: text := by
  have suffix := List.dropWhile_suffix (l := text.reverse) isBlank
  have := List.reverse_prefix.2 suffix
  rwa [List.reverse_reverse] at this

/-- The text without white space at either end. -/
def trim (text : List Char) : List Char := trimEnd (trimStart text)

/-- Nothing but white space. -/
def allBlank (text : List Char) : Bool := text.all isBlank

end Signet.Text
