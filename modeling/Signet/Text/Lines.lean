import Signet.Text.Table

/-! # Lines of a text

A newline ends a line and belongs to none. A text has one line more than newlines, so the empty
text has one line and a final newline opens an empty last one. A table says where the lines begin.
Lines count from 1, columns from 0.
-/

namespace Signet.Text

/-- Where lines begin behind the newlines of a text that has `index` characters in front. -/
def lineStartsFrom (index : Nat) : List Char → List Nat
  | [] => []
  | c :: text =>
    if c = '\n' then (index + 1) :: lineStartsFrom (index + 1) text
    else lineStartsFrom (index + 1) text

/-- Where the lines of a text begin. -/
def lineStarts (text : List Char) : List Nat := 0 :: lineStartsFrom 0 text

/-- A position as a line and a column. -/
structure Place where
  line : Nat
  column : Nat
deriving DecidableEq, Repr

/-- The place of a character offset: it is on the last line that does not begin behind it. -/
def placeAt (text : List Char) (pos : Nat) : Place :=
  let starts := lineStarts text
  let index := Table.lastUpTo starts pos
  { line := index + 1, column := pos - starts.getD index 0 }

end Signet.Text
