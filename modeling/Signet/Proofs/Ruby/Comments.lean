import Mathlib.Data.List.Nodup
import Signet.Proofs.Ruby.Cursor
import Signet.Proofs.Source.Lines
import Signet.Proofs.Source.Offsets
import Signet.Ruby.Comments

/-!
# The comments of a file

The index of comments has the line comments of a tree, each under its row, and a leading block is
the longest run of standalone comments that ends right above a row (`CommentIndex.ofTree_collects`).

Which node is a line comment, and whether it is standalone, is said of the text around it (`Notes`).
What is added to an index replaces the comment on the same row (`CommentIndex.mem_insertLine_iff`),
so all comments are kept if they are on different rows.
-/

namespace Signet.Ruby

open Text

/-! ## Line comments -/

/-- There is nothing but white space on the line that a text ends in. -/
def EndsBlank (text : List Char) : Prop :=
  ∃ front line, text = front ++ line ∧ (∀ c ∈ front.getLast?, c = '\n') ∧ '\n' ∉ line ∧
    ∀ c ∈ line, isBlank c = true

/-- The node is a comment that begins with `#`, and is kept with its row and its bytes. -/
structure Notes (buffer : Buffer) (node : Node) (comment : CommentLine) : Prop where
  kind_eq : node.kind = "comment"
  row_eq : comment.row = node.head.startRow
  bytes_eq : comment.bytes = node.bytes
  marked : ∃ front text back, buffer.content = front ++ ('#' :: text) ++ back ∧
    node.bytes = ⟨byteLength front, byteLength (front ++ '#' :: text)⟩ ∧
    (comment.standalone = true ↔ EndsBlank front)

namespace CommentLine

/-- The line before a position is what stands behind the last newline. -/
theorem lineBefore_length {text front line : List Char} (text_eq : text = front ++ line)
    (opens : ∀ c ∈ front.getLast?, c = '\n') (plain : '\n' ∉ line) (back : List Char) :
    lineBefore (text ++ back) text.length = line := by
  rw [lineBefore, List.take_left, text_eq, List.reverse_append, takeWhile_append,
    List.reverse_reverse]
  · exact fun c member => decide_eq_true fun newline => plain (newline ▸ List.mem_reverse.1 member)
  · rw [List.head?_reverse]
    exact fun c last => decide_eq_false (not_not_intro (opens c last))

theorem allBlank_lineBefore_iff (text back : List Char) :
    allBlank (lineBefore (text ++ back) text.length) = true ↔ EndsBlank text := by
  constructor
  · intro blank
    obtain ⟨front, line, text_eq, plain, opens⟩ := exists_append_of_getLast? text
    rw [lineBefore_length text_eq opens plain] at blank
    exact ⟨front, line, text_eq, opens, plain, List.all_eq_true.1 blank⟩
  · rintro ⟨front, line, text_eq, opens, plain, blank⟩
    rw [lineBefore_length text_eq opens plain]
    exact List.all_eq_true.2 blank

/-- A node is taken for a line comment exactly if it is one. -/
theorem ofNode?_eq_some_iff {buffer : Buffer} {node : Node} {comment : CommentLine} :
    ofNode? buffer node = some comment ↔ Notes buffer node comment := by
  have standalone_iff : ∀ front rest, buffer.content = front ++ rest →
      (allBlank (lineBefore buffer.content (buffer.charOfByte (byteLength front))) = true ↔
        EndsBlank front) := by
    intro front rest content_eq
    rw [Buffer.charOfByte, content_eq, charOfByte_byteLength_append, allBlank_lineBefore_iff]
  simp only [ofNode?, Bool.and_eq_true, decide_eq_true_eq, Option.any_eq_true,
    Option.ite_none_right_eq_some, Option.some.injEq, Buffer.textAtBytes?_eq_some_iff]
  constructor
  · rintro ⟨⟨kind_eq, whole, ⟨front, back, content_eq, bytes_eq⟩, mark⟩, rfl⟩
    obtain ⟨text, rfl⟩ := List.head?_eq_some_iff.1 mark
    refine ⟨kind_eq, rfl, rfl, front, text, back, content_eq, bytes_eq, ?_⟩
    rw [bytes_eq]
    exact standalone_iff front _ (content_eq.trans (List.append_assoc ..))
  · rintro ⟨kind_eq, row_eq, bytes_eq, front, text, back, content_eq, ends_eq, blank_iff⟩
    refine ⟨⟨kind_eq, '#' :: text, ⟨front, back, content_eq, ends_eq⟩, rfl⟩, ?_⟩
    obtain ⟨row, bytes, standalone⟩ := comment
    obtain rfl : row = _ := row_eq
    obtain rfl : bytes = _ := bytes_eq
    congr 1
    rw [Bool.eq_iff_iff, blank_iff, ends_eq]
    exact standalone_iff front _ (content_eq.trans (List.append_assoc ..))

end CommentLine

/-- A line comment begins with its mark. -/
theorem Notes.head?_text {buffer : Buffer} {node : Node} {comment : CommentLine}
    (noted : Notes buffer node comment) : (comment.text buffer).head? = some '#' := by
  obtain ⟨front, text, back, content_eq, ends_eq, -⟩ := noted.marked
  have found : buffer.textAtBytes? comment.bytes = some ('#' :: text) :=
    (buffer.textAtBytes?_eq_some_iff ..).2 ⟨front, back, content_eq, noted.bytes_eq.trans ends_eq⟩
  have text_eq : comment.text buffer = '#' :: text := Buffer.extract_of_textAtBytes? found
  rw [text_eq]
  rfl

namespace CommentIndex

/-! ## Lines in order -/

/-- Lines are in order, at most one for each row. -/
def Sorted (lines : List CommentLine) : Prop :=
  lines.Pairwise fun first last => first.row < last.row

section

variable {comment line : CommentLine} {comments lines : List CommentLine}

theorem mem_insertLine (member : line ∈ insertLine comment lines) :
    line = comment ∨ line ∈ lines := by
  induction lines with
  | nil => simpa [insertLine] using member
  | cons first lines ih =>
      rw [insertLine] at member
      split at member
      · simpa using member
      · split at member
        · rcases List.mem_cons.1 member with rfl | member
          · exact .inl rfl
          · exact .inr (List.mem_cons_of_mem _ member)
        · rcases List.mem_cons.1 member with rfl | member
          · exact .inr List.mem_cons_self
          · exact (ih member).imp_right (List.mem_cons_of_mem _)

/-- Adding a comment keeps the lines in order. -/
theorem sorted_insertLine (sorted : Sorted lines) (comment : CommentLine) :
    Sorted (insertLine comment lines) := by
  induction lines with
  | nil => exact List.pairwise_singleton ..
  | cons first lines ih =>
      obtain ⟨above, rest⟩ := List.pairwise_cons.1 sorted
      rw [insertLine]
      split
      · rename_i before
        exact .cons (List.forall_mem_cons.2
          ⟨before, fun line member => Nat.lt_trans before (above line member)⟩) sorted
      · split
        · rename_i same
          exact .cons (same ▸ above) rest
        · refine .cons (fun line member => ?_) (ih rest)
          rcases mem_insertLine member with rfl | member
          · omega
          · exact above line member

/-- A comment that is added replaces the one on its row. -/
theorem mem_insertLine_iff (sorted : Sorted lines) :
    line ∈ insertLine comment lines ↔
      line = comment ∨ line ∈ lines ∧ line.row ≠ comment.row := by
  induction lines with
  | nil => simp [insertLine]
  | cons first lines ih =>
      obtain ⟨above, rest⟩ := List.pairwise_cons.1 sorted
      rw [insertLine]
      split
      · grind
      · split
        · grind
        · rw [List.mem_cons, ih rest]
          grind

theorem sorted_foldl (comments : List CommentLine) (sorted : Sorted lines) :
    Sorted (comments.foldl (fun lines comment => insertLine comment lines) lines) := by
  induction comments generalizing lines with
  | nil => exact sorted
  | cons comment comments ih => exact ih (sorted_insertLine sorted comment)

theorem mem_foldl
    (member : line ∈ comments.foldl (fun lines comment => insertLine comment lines) lines) :
    line ∈ lines ∨ line ∈ comments := by
  induction comments generalizing lines with
  | nil => exact .inl member
  | cons comment comments ih =>
      rw [List.mem_cons]
      rcases ih member with member | member
      · exact (mem_insertLine member).elim (.inr ∘ .inl) .inl
      · exact .inr (.inr member)

/-- Comments on different rows are all kept. -/
theorem mem_foldl_iff (comments : List CommentLine) (sorted : Sorted lines)
    (apart : (lines ++ comments).Pairwise fun first last => first.row ≠ last.row) :
    line ∈ comments.foldl (fun lines comment => insertLine comment lines) lines ↔
      line ∈ lines ∨ line ∈ comments := by
  induction comments generalizing lines with
  | nil => simp
  | cons comment comments ih =>
      obtain ⟨old, new, across⟩ := List.pairwise_append.1 apart
      obtain ⟨first, rest⟩ := List.pairwise_cons.1 new
      have added : line ∈ insertLine comment lines ↔ line = comment ∨ line ∈ lines := by
        rw [mem_insertLine_iff sorted]
        exact or_congr_right <| and_iff_left_of_imp fun member =>
          across line member comment List.mem_cons_self
      have apart' : (insertLine comment lines ++ comments).Pairwise
          fun first last => first.row ≠ last.row := by
        refine List.pairwise_append.2 ⟨(sorted_insertLine sorted comment).imp Nat.ne_of_lt, rest,
          fun line member other inRest => ?_⟩
        rcases mem_insertLine member with rfl | member
        · exact first other inRest
        · exact across line member other (List.mem_cons_of_mem _ inRest)
      rw [List.foldl_cons, ih (sorted_insertLine sorted comment) apart', added, List.mem_cons]
      exact or_assoc.trans or_left_comm

/-- The comment on a row is the one that is kept with this row. -/
theorem get?_eq_some_iff {index : CommentIndex} (sorted : Sorted index.lines) {row : Nat} :
    index.get? row = some comment ↔ comment ∈ index.lines ∧ comment.row = row := by
  have rows_nodup : (index.lines.map (·.row)).Nodup :=
    List.pairwise_map.2 (sorted.imp Nat.ne_of_lt)
  constructor
  · intro found
    exact ⟨List.mem_of_find?_eq_some found, by simpa using List.find?_some found⟩
  · rintro ⟨member, rfl⟩
    cases found : index.get? comment.row with
    | none =>
        have other := List.find?_eq_none.1 found comment member
        exact absurd (decide_eq_true rfl) other
    | some other =>
        have same : other.row = comment.row := by simpa using List.find?_some found
        rw [List.inj_on_of_nodup_map rows_nodup (List.mem_of_find?_eq_some found) member same]

end

/-! ## The index of a tree -/

section

variable {buffer : Buffer} {root : Node}

/-- A comment of the index is at a node of the tree. -/
theorem exists_node_of_mem_ofTree {line : CommentLine}
    (member : line ∈ (ofTree buffer root).lines) :
    ∃ node ∈ root.preorder, CommentLine.ofNode? buffer node = some line := by
  rcases mem_foldl member with member | member
  · exact nomatch member
  · obtain ⟨cursor, inside, found⟩ := List.mem_filterMap.1 member
    rw [Walk.entered_start] at inside
    rw [← root.map_node_cursors []]
    exact ⟨cursor.node, List.mem_map_of_mem inside, found⟩

/-- There is at most one line comment on each row. -/
def RowsApart (buffer : Buffer) (root : Node) : Prop :=
  ∀ first last left right earlier later, root.at? first = some left → root.at? last = some right →
    Notes buffer left earlier → Notes buffer right later → earlier.row = later.row → first = last

/-- The line comments of a tree in document order. -/
def commentsOf (buffer : Buffer) (root : Node) : List CommentLine :=
  (root.cursors []).filterMap (CommentLine.ofNode? buffer ·.node)

/-- The index is built from the comments one after the other. -/
theorem ofTree_eq (buffer : Buffer) (root : Node) : ofTree buffer root =
    ⟨(commentsOf buffer root).foldl (fun lines comment => insertLine comment lines) []⟩ := by
  rw [ofTree, commentsOf, Walk.entered_start]

theorem mem_commentsOf_iff {comment : CommentLine} : comment ∈ commentsOf buffer root ↔
    ∃ address node, root.at? address = some node ∧ Notes buffer node comment := by
  rw [commentsOf, List.mem_filterMap]
  constructor
  · rintro ⟨cursor, inside, found⟩
    exact ⟨_, _, (root.tours_cursors.exact ..).1 ⟨cursor, inside, rfl, rfl⟩,
      CommentLine.ofNode?_eq_some_iff.1 found⟩
  · rintro ⟨address, node, found, noted⟩
    obtain ⟨cursor, inside, -, rfl⟩ := (root.tours_cursors.exact ..).2 found
    exact ⟨cursor, inside, CommentLine.ofNode?_eq_some_iff.2 noted⟩

/-- The walk comes to no two comments on one row. -/
theorem rowsApart_iff : RowsApart buffer root ↔
    (commentsOf buffer root).Pairwise fun first last => first.row ≠ last.row := by
  -- A tour has the cursors in the order of their addresses, so two comments in it are at different
  -- nodes.
  have tour := root.tours_cursors
  have ordered := List.pairwise_map.1 tour.ordered
  rw [commentsOf, List.pairwise_filterMap]
  constructor
  · intro apart
    refine ordered.imp_of_mem fun {first last} inFirst inLast before => ?_
    intro earlier found later found' same
    have first? := (tour.exact ..).1 ⟨first, inFirst, rfl, rfl⟩
    have last? := (tour.exact ..).1 ⟨last, inLast, rfl, rfl⟩
    have address_eq := apart _ _ _ _ _ _ first? last? (CommentLine.ofNode?_eq_some_iff.1 found)
      (CommentLine.ofNode?_eq_some_iff.1 found') same
    exact List.lt_irrefl _ (address_eq ▸ before)
  · intro apart first last left right earlier later first? last? noted noted' same
    obtain ⟨one, inOne, rfl, rfl⟩ := (tour.exact ..).2 first?
    obtain ⟨other, inOther, rfl, rfl⟩ := (tour.exact ..).2 last?
    have symmetric : Std.Symm fun one other : Cursor =>
        ∀ earlier, CommentLine.ofNode? buffer one.node = some earlier →
          ∀ later, CommentLine.ofNode? buffer other.node = some later → earlier.row ≠ later.row :=
      ⟨fun _ _ differ _ found _ found' => (differ _ found' _ found).symm⟩
    by_contra elsewhere
    have other_ne : one ≠ other := fun same => elsewhere (congrArg Cursor.address same)
    exact apart.forall inOne inOther other_ne _ (CommentLine.ofNode?_eq_some_iff.2 noted) _
      (CommentLine.ofNode?_eq_some_iff.2 noted') same

/-- An index has exactly the line comments of a tree, each under its row. -/
structure Indexes (buffer : Buffer) (root : Node) (index : CommentIndex) : Prop where
  sorted : Sorted index.lines
  exact : ∀ comment, comment ∈ index.lines ↔
    ∃ address node, root.at? address = some node ∧ Notes buffer node comment
  keyed : ∀ row comment, index.get? row = some comment ↔
    comment ∈ index.lines ∧ comment.row = row

theorem indexes_ofTree (apart : RowsApart buffer root) :
    Indexes buffer root (ofTree buffer root) := by
  have sorted : Sorted (ofTree buffer root).lines := sorted_foldl _ .nil
  refine ⟨sorted, fun comment => ?_, fun row comment => get?_eq_some_iff sorted⟩
  rw [ofTree_eq, mem_foldl_iff (commentsOf buffer root) .nil (rowsApart_iff.1 apart),
    mem_commentsOf_iff]
  simp

end

/-! ## Leading blocks -/

/-- A block is the longest run of standalone comments that ends right above a row. -/
structure LeadingRun (index : CommentIndex) (row : Nat) (block : List CommentLine) : Prop where
  length_le : block.length ≤ row
  rows_eq : block.map (·.row) = List.range' (row - block.length) block.length
  standalone : ∀ comment ∈ block,
    index.get? comment.row = some comment ∧ comment.standalone = true
  longest : ∀ above, above + 1 + block.length = row →
    ∀ comment, index.get? above = some comment → comment.standalone = false

theorem leadingRun (index : CommentIndex) (row : Nat) :
    LeadingRun index row (index.leadingBlock row) := by
  -- One row further down the run is longer by the comment in that row, or empty if there is none.
  induction row with
  | zero =>
      rw [leadingBlock]
      exact ⟨Nat.le_refl 0, rfl, nofun, nofun⟩
  | succ row ih =>
      rw [leadingBlock]
      cases last : index.standalone? row with
      | none =>
          refine ⟨Nat.zero_le _, rfl, nofun, fun above next comment found => ?_⟩
          obtain rfl : above = row := Nat.succ_injective next
          simpa [standalone?, found] using last
      | some comment =>
          obtain ⟨found, standalone⟩ := Option.filter_eq_some_iff.1 last
          have row_eq : comment.row = row := by simpa using List.find?_some found
          have short := ih.length_le
          refine ⟨?_, ?_, ?_, ?_⟩
          · rw [List.length_append, List.length_singleton]
            omega
          · rw [List.map_append, ih.rows_eq, List.length_append, List.length_singleton,
              List.range'_1_concat, Nat.add_sub_add_right, Nat.sub_add_cancel short]
            simp [row_eq]
          · rw [List.forall_mem_append, List.forall_mem_singleton, row_eq]
            exact ⟨ih.standalone, found, standalone⟩
          · intro above next
            rw [List.length_append, List.length_singleton] at next
            exact ih.longest above (by omega)

/-! ## Collecting -/

/-- The walk through a tree ends when it has entered every node once, in document order. The index
has then exactly the line comments of the tree, if no two of them are on one row, and the leading
block of a row is the longest run of standalone comments that ends right above it. -/
theorem ofTree_collects (buffer : Buffer) (root : Node) :
    (Walk.start root).Completes (Walk.start root).entered ∧
    Tours root (Walk.start root).entered ∧
    (Walk.start root).entered.map (·.node) = root.preorder ∧
    (RowsApart buffer root → Indexes buffer root (ofTree buffer root)) ∧
    ∀ row, LeadingRun (ofTree buffer root) row ((ofTree buffer root).leadingBlock row) := by
  rw [Walk.entered_start]
  exact ⟨Walk.completes_start root, root.tours_cursors, root.map_node_cursors [], indexes_ofTree,
    fun row => leadingRun _ row⟩

/-- Two comments above a call, one deep inside of it and one behind it. -/
def notedText : String := "# é\n# b\nfoo( # c\n) # d"

/-- The tree of the call and of the comments around it. -/
def notedTree : Node :=
  .mk ⟨"program", true, none, ⟨0, 23⟩, 0, 3⟩
    [.mk ⟨"comment", true, none, ⟨0, 4⟩, 0, 0⟩ [],
     .mk ⟨"comment", true, none, ⟨5, 8⟩, 1, 1⟩ [],
     .mk ⟨"call", true, none, ⟨9, 19⟩, 2, 3⟩
       [.mk ⟨"identifier", true, some "method", ⟨9, 12⟩, 2, 2⟩ [],
        .mk ⟨"argument_list", true, some "arguments", ⟨12, 19⟩, 2, 3⟩
          [.mk ⟨"(", false, none, ⟨12, 13⟩, 2, 2⟩ [],
           .mk ⟨"comment", true, none, ⟨14, 17⟩, 2, 2⟩ [],
           .mk ⟨")", false, none, ⟨18, 19⟩, 3, 3⟩ []]],
     .mk ⟨"comment", true, none, ⟨20, 23⟩, 3, 3⟩ []]

/-- The walk goes on behind the call after it was two levels further down, and the comments behind
code are in no leading block. -/
theorem ofTree_collects_noted :
    RowsApart (.ofString "a.rb" notedText) notedTree ∧
    Tours notedTree (Walk.start notedTree).entered ∧
    (Walk.start notedTree).entered.map Cursor.address =
      [[], [0], [1], [2], [2, 0], [2, 1], [2, 1, 0], [2, 1, 1], [2, 1, 2], [3]] ∧
    Indexes (.ofString "a.rb" notedText) notedTree
      (ofTree (.ofString "a.rb" notedText) notedTree) ∧
    (ofTree (.ofString "a.rb" notedText) notedTree).lines =
      [⟨0, ⟨0, 4⟩, true⟩, ⟨1, ⟨5, 8⟩, true⟩, ⟨2, ⟨14, 17⟩, false⟩, ⟨3, ⟨20, 23⟩, false⟩] ∧
    LeadingRun (ofTree (.ofString "a.rb" notedText) notedTree) 2
      [⟨0, ⟨0, 4⟩, true⟩, ⟨1, ⟨5, 8⟩, true⟩] ∧
    LeadingRun (ofTree (.ofString "a.rb" notedText) notedTree) 4 [] := by
  obtain ⟨-, tours, -, indexes, leading⟩ :=
    ofTree_collects (.ofString "a.rb" notedText) notedTree
  have apart : RowsApart (.ofString "a.rb" notedText) notedTree :=
    rowsApart_iff.2 (by decide +kernel)
  have above : (ofTree (.ofString "a.rb" notedText) notedTree).leadingBlock 2 =
      [⟨0, ⟨0, 4⟩, true⟩, ⟨1, ⟨5, 8⟩, true⟩] := by
    decide +kernel
  have below : (ofTree (.ofString "a.rb" notedText) notedTree).leadingBlock 4 = [] := by
    decide +kernel
  exact ⟨apart, tours, by decide +kernel, indexes apart, by decide +kernel, above ▸ leading 2,
    below ▸ leading 4⟩

end CommentIndex

end Signet.Ruby
