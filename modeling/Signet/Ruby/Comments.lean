import Signet.Ruby.Cursor
import Signet.Source.Buffer
import Signet.Text.Blank

/-! # Comments of a Ruby file

Line comments are kept by row. A comment is *standalone* if nothing but white space stands before
it on its line. The standalone comments on the rows right above a definition are its leading block;
a comment after the end of a construct on its last row is trailing.
-/

namespace Signet.Ruby

open Text

/-- A line comment. -/
structure CommentLine where
  row : Nat
  bytes : Range
  standalone : Bool
deriving DecidableEq, Repr

namespace CommentLine

/-- The characters of the comment. -/
def range (buffer : Buffer) (comment : CommentLine) : Range :=
  ⟨buffer.charOfByte comment.bytes.start, buffer.charOfByte comment.bytes.stop⟩

/-- The text of the comment. -/
def text (buffer : Buffer) (comment : CommentLine) : List Char :=
  let range := comment.range buffer
  buffer.content.extract range.start range.stop

/-- The text before a position on its line. -/
def lineBefore (content : List Char) (pos : Nat) : List Char :=
  ((content.take pos).reverse.takeWhile (· ≠ '\n')).reverse

/-- The line comment that a node is. Comments of several lines start otherwise. -/
def ofNode? (buffer : Buffer) (node : Node) : Option CommentLine :=
  if node.kind = "comment" && (buffer.textAtBytes? node.bytes).any (·.head? = some '#') then
    let before := lineBefore buffer.content (buffer.charOfByte node.bytes.start)
    some { row := node.head.startRow, bytes := node.bytes, standalone := allBlank before }
  else none

end CommentLine

/-- The line comments of a file by row, in order of rows. -/
structure CommentIndex where
  lines : List CommentLine := []

namespace CommentIndex

/-- The lines with one more comment; it replaces one on the same row. -/
def insertLine (comment : CommentLine) : List CommentLine → List CommentLine
  | [] => [comment]
  | line :: lines =>
    if comment.row < line.row then comment :: line :: lines
    else if comment.row = line.row then comment :: lines
    else line :: insertLine comment lines

/-- The comments that a walk through a tree comes to. -/
def ofTree (buffer : Buffer) (root : Node) : CommentIndex where
  lines := ((Walk.start root).entered.filterMap (CommentLine.ofNode? buffer ·.node)).foldl
    (fun lines comment => insertLine comment lines) []

/-- The comment on a row. -/
def get? (index : CommentIndex) (row : Nat) : Option CommentLine :=
  index.lines.find? fun line => line.row = row

/-- The standalone comment on a row. -/
def standalone? (index : CommentIndex) (row : Nat) : Option CommentLine :=
  (index.get? row).filter (·.standalone)

/-- The standalone comments on the rows right above a row, from top to bottom. -/
def leadingBlock (index : CommentIndex) : Nat → List CommentLine
  | 0 => []
  | row + 1 =>
    match index.standalone? row with
    | some comment => index.leadingBlock row ++ [comment]
    | none => []

/-- The comment on a row that starts after a byte and shares its line with code. -/
def trailing? (index : CommentIndex) (row byte : Nat) : Option CommentLine :=
  (index.get? row).filter fun comment => !comment.standalone && byte ≤ comment.bytes.start

end CommentIndex

end Signet.Ruby
