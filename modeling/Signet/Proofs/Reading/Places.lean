import Mathlib.Data.List.TakeWhile
import Signet.Proofs.Grammar.Derivations
import Signet.Proofs.Reading.Excerpts
import Signet.Proofs.Reading.Parts
import Signet.Reading.Declarations

/-!
# Where the parts of a tree are

The range of a tree is its text without the white space at the end. It is not empty, since a tree
has a token, and it lies inside the ranges of the trees around it (`Contains.inside`). It ends with
the last token, unless a comment was skipped behind that one: trimming stops at a comment
(`LastToken.stop_eq`).

Every range that a location publishes leads from the start of a tree to the stop of one, both of
them in the tree that the location is of (`Excerpt.Marks`).
-/

namespace Signet

open Text Grammar

/-! ## Trimming -/

namespace Text

theorem trimEnd_append (front back : List Char) :
    trimEnd (front ++ back) =
      if trimEnd back = [] then trimEnd front else front ++ trimEnd back := by
  simp only [trimEnd, List.reverse_append, List.dropWhile_append, List.reverse_eq_nil_iff,
    List.isEmpty_iff]
  split
  · rfl
  · rw [List.reverse_append, List.reverse_reverse]

/-- Trimming stops at a character that is no white space. -/
theorem trimEnd_append_cons {c : Char} (inky : isBlank c = false) (front back : List Char) :
    trimEnd (front ++ c :: back) = front ++ c :: trimEnd back := by
  have single : trimEnd [c] = [c] := by simp [trimEnd, inky]
  have later : trimEnd (c :: back) = c :: trimEnd back := by
    rw [← List.singleton_append, trimEnd_append, single]
    split
    · rename_i blank
      rw [blank]
    · rfl
  rw [trimEnd_append, later, if_neg (List.cons_ne_nil _ _)]

/-- More text behind a text leaves as much of it as before. -/
theorem length_trimEnd_le (front back : List Char) :
    (trimEnd front).length ≤ (trimEnd (front ++ back)).length := by
  rw [trimEnd_append]
  split
  · exact Nat.le_refl _
  · have := ( trimEnd_prefix front).length_le
    rw [List.length_append]
    omega

theorem trimEnd_eq_nil_iff (text : List Char) :
    trimEnd text = [] ↔ ∀ c ∈ text, isBlank c = true := by
  simp [trimEnd]

end Text

/-- What is skipped without a comment is blank. -/
theorem isSpacing_of_skipped {gap : List Char} {pos : Nat}
    (skipped : (Cursor.skipFrom false pos gap).rest = []) (plain : '#' ∉ gap) :
    ∀ c ∈ gap, isSpacing c = true := by
  induction gap generalizing pos with
  | nil => exact nofun
  | cons c gap ih =>
      rw [List.mem_cons, not_or] at plain
      obtain ⟨noHash, plain⟩ := plain
      rw [Cursor.skipFrom, if_neg Bool.false_ne_true] at skipped
      by_cases spacing : isSpacing c = true
      · rw [if_pos spacing] at skipped
        exact List.forall_mem_cons.2 ⟨spacing, ih skipped plain⟩
      · -- skipping would have stopped here, with the character left
        rw [if_neg spacing, if_neg (Ne.symm noHash)] at skipped
        cases skipped

/-- Of what was skipped, trimming takes all exactly if there is no comment. -/
theorem trimEnd_eq_nil_iff_of_skipped {gap : List Char} (skipped : afterBlanks gap = []) :
    trimEnd gap = [] ↔ '#' ∉ gap := by
  rw [trimEnd_eq_nil_iff]
  constructor
  · intro blank hash
    exact absurd (blank '#' hash) (by decide)
  · exact fun plain c member => isBlank_of_isSpacing (isSpacing_of_skipped skipped plain c member)

/-! ## Ranges of trees -/

/-- A range of at least one character inside another range. -/
structure Range.Inside (inner outer : Range) : Prop where
  start_le : outer.start ≤ inner.start
  nonempty : inner.start < inner.stop
  stop_le : inner.stop ≤ outer.stop

variable {tokens : List Range} {cursor next : Cursor} {tree inner whole : ParseTree} {token : Range}
  {gap : List Char}

namespace Grammar.LastToken

variable (ends : LastToken tokens tree token gap)

include ends

/-- Behind its last token the range of a tree covers what trimming leaves of the skipped blanks and
comments. -/
theorem stop_eq : tree.range.stop = token.stop + (trimEnd gap).length := by
  obtain ⟨front, c, text_eq, inky, stop⟩ := ends.text_eq
  show tree.start + (trimEnd tree.text).length = _
  rw [text_eq, trimEnd_append_cons inky, stop, List.length_append, List.length_cons]
  omega

/-- The range of a tree ends with its last token exactly if no comment was skipped behind it. -/
theorem stop_eq_iff : tree.range.stop = token.stop ↔ '#' ∉ gap := by
  rw [ends.stop_eq, ← trimEnd_eq_nil_iff_of_skipped ends.skipped, Nat.add_eq_left,
    List.length_eq_zero_iff]

/-- The range of a tree is not empty. -/
theorem start_lt_stop : tree.range.start < tree.range.stop := by
  have start : tree.range.start ≤ token.start := ends.start_le
  have nonempty := ends.nonempty
  rw [ends.stop_eq]
  omega

end Grammar.LastToken

namespace Grammar.ParseTree

/-- A tree contains itself and what its children contain. -/
inductive Contains : ParseTree → ParseTree → Prop
  | refl {tree : ParseTree} : Contains tree tree
  | child {tree child inner : ParseTree} : child ∈ tree.children → Contains child inner →
      Contains tree inner

namespace Contains

theorem trans (outer : whole.Contains tree) (contains : tree.Contains inner) :
    whole.Contains inner := by
  induction outer with
  | refl => exact contains
  | child member _ ih => exact .child member (ih contains)

theorem of_mem (member : inner ∈ tree.children) : tree.Contains inner := .child member .refl

/-- What a part contains are parts. -/
theorem part (contains : tree.Contains inner) (part : Part cursor tokens next tree) :
    Part cursor tokens next inner := by
  induction contains with
  | refl => exact part
  | child member _ ih => exact ih (part.child _ member)

/-- The text of a tree is a piece of the text of the tree around it. -/
theorem exists_text (contains : tree.Contains inner) (part : Part cursor tokens next tree) :
    ∃ before after, tree.text = before ++ inner.text ++ after ∧
      inner.start = tree.start + before.length := by
  induction contains with
  | refl => exact ⟨[], [], by simp, rfl⟩
  | @child tree child inner member _ ih =>
      obtain ⟨before, after, text_eq, start_eq⟩ := ih (part.child child member)
      obtain ⟨front, back, whole_eq, first_eq⟩ := part.exists_child_text child member
      refine ⟨front ++ before, after ++ back, by simp [whole_eq, text_eq], ?_⟩
      rw [start_eq, first_eq, List.length_append]
      omega

/-- The range of a tree lies inside the range of the tree around it. -/
theorem inside (contains : tree.Contains inner) (part : Part cursor tokens next tree)
    (least : 0 < inner.rule.least) : inner.range.Inside tree.range := by
  obtain ⟨before, after, text_eq, start_eq⟩ := contains.exists_text part
  obtain ⟨token, gap, ends⟩ := (contains.part part).exists_lastToken least
  obtain ⟨front, c, inner_eq, inky, -⟩ := ends.text_eq
  refine ⟨?_, ends.start_lt_stop, ?_⟩
  · show tree.start ≤ inner.start
    omega
  · show inner.start + (trimEnd inner.text).length ≤ tree.start + (trimEnd tree.text).length
    -- Both texts are trimmed only behind the last token of the inner tree. There the outer one has
    -- the same gap and more.
    have outer_eq : tree.text = (before ++ front) ++ c :: (gap ++ after) := by
      simp [text_eq, inner_eq]
    have longer := length_trimEnd_le gap after
    rw [outer_eq, inner_eq, trimEnd_append_cons inky, trimEnd_append_cons inky]
    simp only [List.length_append, List.length_cons]
    omega

end Contains

end Grammar.ParseTree

/-! ## Parts of locations -/

/-- The trees under the first tree of a rule are in the tree. -/
theorem contains_of_childrenOf {rule : Rule} (member : inner ∈ childrenOf rule tree.children) :
    tree.Contains inner := by
  unfold childrenOf at member
  cases found : findTree rule tree.children with
  | none => simp [found] at member
  | some middle =>
      rw [found] at member
      exact .child (exists_of_findTree found).1 (.of_mem member)

variable {shape : Shape} {excerpt : Excerpt} {location : Location shape}

namespace Excerpt

/-- The range leads from the start of a tree to the stop of a tree that contains it or begins after
it, and both are in the given tree. -/
def Spans (excerpt : Excerpt) (tree : ParseTree) (range : Range) : Prop :=
  ∃ first last, tree.Contains first ∧ tree.Contains last ∧ 0 < first.rule.least ∧
    0 < last.rule.least ∧ (last.Contains first ∨ first.start ≤ last.start) ∧
      range = (excerpt.range first).through (excerpt.range last)

/-- A single tree is spanned. -/
theorem spans_range (contains : tree.Contains inner) (least : 0 < inner.rule.least) :
    excerpt.Spans tree (excerpt.range inner) :=
  ⟨inner, inner, contains, contains, least, least, .inl .refl, rfl⟩

/-- What is spanned in a tree is spanned in the tree around it. -/
theorem Spans.trans {range : Range} (outer : whole.Contains tree)
    (spans : excerpt.Spans tree range) : excerpt.Spans whole range := by
  obtain ⟨first, last, inFirst, inLast, least, more, order, same⟩ := spans
  exact ⟨first, last, outer.trans inFirst, outer.trans inLast, least, more, order, same⟩

/-- What is spanned in a tree lies inside its range. -/
theorem Spans.inside {range : Range} (spans : excerpt.Spans tree range)
    (part : Part cursor tokens next tree) : range.Inside (excerpt.range tree) := by
  obtain ⟨first, last, inFirst, inLast, least, more, order, rfl⟩ := spans
  obtain ⟨start, -, -⟩ := inFirst.inside part least
  obtain ⟨-, nonempty, stop⟩ := inLast.inside part more
  have ordered : first.range.start < last.range.stop := by
    rcases order with contains | before
    · obtain ⟨-, inner, inStop⟩ := contains.inside (inLast.part part) least
      omega
    · exact Nat.lt_of_le_of_lt before nonempty
  exact ⟨Nat.add_le_add_right start _, Nat.add_lt_add_right ordered _,
    Nat.add_le_add_right stop _⟩

/-- The location is that of the tree, and each of its parts is in the tree. -/
structure Marks (excerpt : Excerpt) (tree : ParseTree) (location : Location shape) : Prop where
  buffer_eq : location.buffer = excerpt.buffer
  range_eq : location.range = excerpt.range tree
  required : ∀ key range, location.required key = some range → excerpt.Spans tree range
  optional : ∀ key range, location.optional key = .present range → excerpt.Spans tree range

namespace Marks

/-- A location without parts. -/
theorem bare (shape : Shape) (excerpt : Excerpt) (tree : ParseTree) :
    excerpt.Marks tree (excerpt.location tree : Location shape) where
  buffer_eq := rfl
  range_eq := rfl
  required := nofun
  optional := nofun

theorem record (marks : excerpt.Marks tree location) (key : RequiredKey)
    {range : Range} (spans : excerpt.Spans tree range) :
    excerpt.Marks tree (location.record key range) where
  buffer_eq := marks.buffer_eq
  range_eq := marks.range_eq
  required := by
    intro other found recorded
    by_cases same : other = key
    · subst same
      rw [Location.required_record] at recorded
      exact Option.some.inj recorded ▸ spans
    · rw [Location.required_record_of_ne _ _ same] at recorded
      exact marks.required other found recorded
  optional := marks.optional

theorem recordOptional (marks : excerpt.Marks tree location) (key : OptionalKey)
    {range : Option Range} (spans : ∀ found ∈ range, excerpt.Spans tree found) :
    excerpt.Marks tree (location.recordOptional key range) where
  buffer_eq := marks.buffer_eq
  range_eq := marks.range_eq
  required := marks.required
  optional := by
    intro other found recorded
    by_cases same : other = key
    · subst same
      rw [Location.optional_recordOptional] at recorded
      cases range with
      | none => cases recorded
      | some range => exact Slot.present.inj recorded ▸ spans range rfl
    · rw [Location.optional_recordOptional_of_ne _ _ same] at recorded
      exact marks.optional other found recorded

/-- The first child of a rule may be recorded as a required part. -/
theorem child (marks : excerpt.Marks tree location) (key : RequiredKey) (rule : Rule)
    (least : 0 < rule.least) :
    excerpt.Marks tree (excerpt.recordTree tree.children location key rule) := by
  unfold Excerpt.recordTree
  cases found : findTree rule tree.children with
  | none => exact marks
  | some inner =>
      obtain ⟨member, same⟩ := exists_of_findTree found
      exact marks.record key (spans_range (.of_mem member) (same ▸ least))

theorem recordTree? (marks : excerpt.Marks tree location) (key : OptionalKey) (rule : Rule)
    (least : 0 < rule.least) {trees : List ParseTree}
    (inside : ∀ inner ∈ trees, tree.Contains inner) :
    excerpt.Marks tree (excerpt.recordTree? trees location key rule) := by
  unfold Excerpt.recordTree?
  refine marks.recordOptional key fun range member => ?_
  obtain ⟨inner, found, rfl⟩ := Option.map_eq_some_iff.1 member
  obtain ⟨member, same⟩ := exists_of_findTree found
  exact spans_range (inside inner member) (same ▸ least)

/-- The first child of a rule may be recorded as an optional part. -/
theorem child? (marks : excerpt.Marks tree location) (key : OptionalKey) (rule : Rule)
    (least : 0 < rule.least) :
    excerpt.Marks tree (excerpt.recordTree? tree.children location key rule) :=
  marks.recordTree? key rule least fun _ => .of_mem

/-- So may the first one below the first child of another rule. -/
theorem grandchild? (marks : excerpt.Marks tree location) (key : OptionalKey) (outer rule : Rule)
    (least : 0 < rule.least) :
    excerpt.Marks tree (excerpt.recordTree? (childrenOf outer tree.children) location key rule) :=
  marks.recordTree? key rule least fun _ => contains_of_childrenOf

end Marks

/-! ### The shapes -/

theorem marks_typeParamLocation (excerpt : Excerpt) (tree : ParseTree) :
    excerpt.Marks tree (typeParamLocation excerpt tree) := by
  have name := (Marks.bare .typeParam excerpt tree).child .name .upperIdent (by decide)
  have variance := name.child? .variance .variance (by decide)
  have unchecked := variance.child? .unchecked .unchecked (by decide)
  have upperBound := unchecked.child? .upperBound .upperBound (by decide)
  exact upperBound.child? .default .defaultType (by decide)

theorem marks_methodLocation (excerpt : Excerpt) (tree : ParseTree) :
    excerpt.Marks tree (methodLocation excerpt tree) := by
  have keyword := (Marks.bare .method excerpt tree).child .keyword .defKeyword (by decide)
  have name := keyword.child .name .methodName (by decide)
  have kind := name.child? .kind .methodKind (by decide)
  have overloading := kind.grandchild? .overloading .overloads .overloading (by decide)
  exact overloading.child? .visibility .visibility (by decide)

/-- The name of a reference is found among the children. -/
theorem needName_eq_ok {name : ParseTree} (found : needName tree = .ok name) :
    name ∈ tree.children ∧ 0 < name.rule.least := by
  unfold needName at found
  split at found
  · rename_i other first
    obtain rfl := Except.ok.inj found
    refine ⟨List.mem_of_find?_eq_some first, ?_⟩
    have rules := List.find?_some first
    simp only [isNameTree, Bool.or_eq_true, decide_eq_true_eq] at rules
    rcases rules with same | same
    · rw [same]
      decide
    · rw [same]
      decide
  · cases found

theorem marks_mixinLocation (excerpt : Excerpt) {name : ParseTree}
    (found : needName tree = .ok name) : excerpt.Marks tree (mixinLocation excerpt tree name) := by
  obtain ⟨member, least⟩ := needName_eq_ok found
  have named := (Marks.bare .mixin excerpt tree).record .name (spans_range (.of_mem member) least)
  exact named.child? .args .typeArgs (by decide)

theorem marks_attributeLocation (excerpt : Excerpt) (tree : ParseTree) :
    excerpt.Marks tree (attributeLocation excerpt tree) := by
  have keyword := (Marks.bare .attr excerpt tree).child .keyword .attributeKind (by decide)
  have name := keyword.child .name .attributeName (by decide)
  exact name.child? .type .typeExpr (by decide)

theorem marks_classLocation (excerpt : Excerpt) (tree : ParseTree) :
    excerpt.Marks tree (classLocation excerpt tree) := by
  have keyword := (Marks.bare .classDecl excerpt tree).child .keyword .classKeyword (by decide)
  have name := keyword.child .name .className (by decide)
  have finish := name.child .finish .endKeyword (by decide)
  have typeParams := finish.child? .typeParams .typeParams (by decide)
  exact typeParams.grandchild? .lt .superclass .superclassMark (by decide)

/-- The self types of a module are contained in its tree, in order. -/
theorem selfTypeTrees_pairwise (part : Part cursor tokens next tree) :
    (selfTypeTrees tree.children).Pairwise fun one two =>
      one.start + one.text.length ≤ two.start := by
  unfold selfTypeTrees childrenOf
  cases found : findTree .selfTypes tree.children with
  | none => exact .nil
  | some list =>
      exact (part.child list (exists_of_findTree found).1).children_pairwise.filter _

theorem mem_selfTypeTrees (member : inner ∈ selfTypeTrees tree.children) :
    tree.Contains inner ∧ inner.rule = .selfType := by
  obtain ⟨member, same⟩ := List.mem_filter.1 member
  exact ⟨contains_of_childrenOf member, by simpa using same⟩

/-- The range over all self types leads from the first to the last. -/
theorem spans_coveringRange (part : Part cursor tokens next tree) :
    ∀ range ∈ coveringRange excerpt (selfTypeTrees tree.children), excerpt.Spans tree range := by
  intro range covering
  unfold coveringRange at covering
  split at covering
  · rename_i first last head tail
    obtain rfl := Option.some.inj covering
    obtain ⟨inFirst, firstRule⟩ := mem_selfTypeTrees (List.mem_of_head? head)
    obtain ⟨inLast, lastRule⟩ := mem_selfTypeTrees (List.mem_of_getLast? tail)
    refine ⟨first, last, inFirst, inLast, firstRule ▸ (by decide), lastRule ▸ (by decide), ?_, rfl⟩
    obtain ⟨rest, split⟩ : ∃ rest, selfTypeTrees tree.children = first :: rest :=
      ⟨_, (List.head?_eq_some_iff.1 head).choose_spec⟩
    have ordered := selfTypeTrees_pairwise part
    rw [split] at tail ordered
    rcases List.mem_cons.1 (List.mem_of_getLast? tail) with rfl | later
    · exact .inl .refl
    · have := (List.pairwise_cons.1 ordered).1 last later
      exact .inr (by omega)
  · cases covering

theorem marks_moduleLocation (excerpt : Excerpt) (part : Part cursor tokens next tree) :
    excerpt.Marks tree (moduleLocation excerpt tree) := by
  have keyword := (Marks.bare .moduleDecl excerpt tree).child .keyword .moduleKeyword (by decide)
  have name := keyword.child .name .className (by decide)
  have finish := name.child .finish .endKeyword (by decide)
  have typeParams := finish.child? .typeParams .typeParams (by decide)
  have colon := typeParams.grandchild? .colon .selfTypes .selfTypesMark (by decide)
  exact colon.recordOptional .selfTypes (spans_coveringRange part)

end Excerpt

end Signet
