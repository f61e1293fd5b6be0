import Mathlib.Data.List.Infix
import Signet.Proofs.Reading.Origins

/-!
# Where published locations stop

A location stops with the last token of the production that it ends with, or behind the blanks and
comments that the production skipped after that token, less the white space at their end. So it
stops with the token exactly if no comment was skipped there (`published_stop_iff`): the end of a
location is trimmed, and trimming does not take comments away.
-/

namespace Signet

open Text Grammar

/-! ## What is published -/

/-- The ranges that a location publishes: its own and those of its parts. -/
inductive Location.Publishes {shape : Shape} (location : Location shape) : Range → Prop
  | whole : Publishes location location.range
  | required {key : RequiredKey} {range : Range} : location.required key = some range →
      Publishes location range
  | optional {key : OptionalKey} {range : Range} : location.optional key = .present range →
      Publishes location range

/-- The ranges that a type parameter publishes. -/
def TypeParam.Publishes (param : TypeParam) (range : Range) : Prop :=
  ∃ location, param.location = some location ∧ location.Publishes range

/-- The ranges that an overload publishes, with its type parameters. -/
def MethodType.Publishes (type : MethodType) (range : Range) : Prop :=
  (∃ location, type.location = some location ∧ location.Publishes range) ∨
    ∃ param ∈ type.typeParams, param.Publishes range

/-- The ranges that a member publishes, except for what is in a nested declaration. -/
def Member.Publishes : Member → Range → Prop
  | .method definition, range =>
    definition.location.Publishes range ∨ ∃ type ∈ definition.overloads, type.Publishes range
  | .mixin inclusion, range => inclusion.location.Publishes range
  | .attr accessor, range => accessor.location.Publishes range
  | .nested _, _ => False

/-- The ranges that the form of a declaration publishes, with the superclass or the self types. -/
def Form.Publishes : Form → Range → Prop
  | .ofClass superclass location, range =>
    location.Publishes range ∨ ∃ reference ∈ superclass, reference.location.range = range
  | .ofModule selfTypes location, range =>
    location.Publishes range ∨ ∃ reference ∈ selfTypes, reference.location.range = range

/-- The ranges that a declaration publishes, except for what is in nested declarations. -/
def Declaration.Publishes (declaration : Declaration) (range : Range) : Prop :=
  declaration.heading.form.Publishes range ∨
    (∃ param ∈ declaration.typeParams, param.Publishes range) ∨
      ∃ member ∈ declaration.members, member.Publishes range

/-! ## Where it stops -/

/-- The last token in a range: no other token that begins in the range stops behind it. -/
structure Range.LastAmong (tokens : List Range) (place token : Range) : Prop where
  mem : token ∈ tokens
  start_le : place.start ≤ token.start
  stop_le : token.stop ≤ place.stop
  last : ∀ other ∈ tokens, other.start < place.stop → other.stop ≤ token.stop

/-- The tokens of a range of a buffer that is read as a rule, counted in the buffer, and the tree
that they make. -/
structure Tokenized (rule : Rule) (buffer : Buffer) (range : Range) (tree : ParseTree)
    (tokens : List Range) : Prop where
  parsed : parse rule (buffer.content.extract range.start range.stop) = .ok tree
  derives : ∃ own last, tokens = own.map (·.shift range.start) ∧
    Derives (.call rule) ⟨0, buffer.content.extract range.start range.stop⟩ [tree] own last

/-- How a published range stops. It ends with a production, that is, a tree in the tree of the text
that begins at `base`. Behind its last token the production skipped a gap, which may be empty, and
trimming leaves a part of the gap in the range: nothing exactly if there is no comment. -/
structure Stops (buffer : Buffer) (base : Nat) (tree : ParseTree) (tokens : List Range)
    (place token : Range) (gap : List Char) : Prop where
  lastAmong : place.LastAmong tokens token
  production : ∃ production, tree.Contains production ∧
    base + production.start + production.text.length = token.stop + gap.length
  gap_prefix : gap <+: buffer.content.drop token.stop
  skipped : afterBlanks gap = []
  stop_eq : place.stop = token.stop + (trimEnd gap).length
  stop_iff : place.stop = token.stop ↔ '#' ∉ gap

/-! ## Spans -/

variable {excerpt : Excerpt} {tokens : List Range} {cursor next : Cursor}
  {tree inner : ParseTree} {range : Range}

namespace Grammar.LastToken

variable {token : Range} {gap : List Char} (ends : LastToken tokens tree token gap)

include ends

/-- A token that begins in the range of a tree does not stop behind the last token. -/
theorem le_of_start_lt {other : Range} (member : other ∈ tokens)
    (inside : other.start < tree.range.stop) : other.stop ≤ token.stop := by
  obtain ⟨before, after, rfl, stops, starts⟩ := ends.split
  rw [List.mem_append, List.mem_cons] at member
  rcases member with earlier | rfl | later
  · exact Nat.le_trans (stops other earlier) (Nat.le_of_lt ends.nonempty)
  · exact Nat.le_refl _
  · -- it begins behind all that the tree has read, blanks and comments included
    have begins := starts other later
    have trimmed := ( trimEnd_prefix tree.text).length_le
    have stop : tree.range.stop = tree.start + (trimEnd tree.text).length := rfl
    omega

/-- A tree in another one has a token that is not behind the last token of the other. -/
theorem start_le_of_contains (part : Part cursor tokens next tree) (contains : tree.Contains inner)
    (least : 0 < inner.rule.least) : inner.start ≤ token.start := by
  obtain ⟨other, rest, innerEnds⟩ := (contains.part part).exists_lastToken least
  obtain ⟨before, after, split, stops, starts⟩ := ends.split
  obtain ⟨front, c, text_eq, -, stop⟩ := innerEnds.text_eq
  obtain ⟨front', back', whole_eq, start_eq⟩ := contains.exists_text part
  have low := innerEnds.start_le
  have ordered := innerEnds.nonempty
  have member : other ∈ tokens := by
    obtain ⟨_, _, same, -⟩ := innerEnds.split
    simp [same]
  rw [split, List.mem_append, List.mem_cons] at member
  rcases member with earlier | rfl | later
  · have := stops other earlier
    omega
  · exact low
  · -- what comes behind the other tree does not begin in this one
    have := starts other later
    simp only [whole_eq, text_eq, List.length_append, List.length_cons] at this
    omega

/-- Behind the last token of a tree the text goes on with what was skipped. -/
theorem gap_prefix {text : List Char} (part : Part ⟨0, text⟩ tokens next tree) :
    gap <+: text.drop token.stop := by
  obtain ⟨front, c, text_eq, -, stop⟩ := ends.text_eq
  obtain ⟨ahead, behind, passes, start⟩ := part.exists_text
  have start : tree.start = 0 + ahead.length := start
  have lead : ((ahead ++ front) ++ [c]).length = token.stop := by
    rw [stop, start]
    simp only [List.length_append, List.length_cons, List.length_nil]
    omega
  have split : text = ((ahead ++ front) ++ [c]) ++ (gap ++ (behind ++ next.rest)) := by
    have whole : text = ahead ++ tree.text ++ behind ++ next.rest := passes.rest_eq
    rw [whole, text_eq]
    simp
  rw [split, ← lead, List.drop_left]
  exact List.prefix_append _ _

end Grammar.LastToken

/-- The text of an excerpt stands in the buffer where the excerpt begins. -/
theorem Excerpt.Lies.text_prefix (lies : excerpt.Lies) :
    excerpt.text <+: excerpt.buffer.content.drop excerpt.base :=
  lies.text_eq ▸ List.take_prefix _ _

/-- A range that is spanned in a tree of the text stops like the production that it ends with. -/
theorem Excerpt.Spans.exists_stops (spans : excerpt.Spans tree range) (lies : excerpt.Lies)
    (part : Part ⟨0, excerpt.text⟩ tokens next tree) :
    ∃ token gap, Stops excerpt.buffer excerpt.base tree (tokens.map (·.shift excerpt.base)) range
      token gap := by
  obtain ⟨first, last, inFirst, inLast, least, more, order, rfl⟩ := spans
  have lastPart := inLast.part part
  obtain ⟨token, gap, ends⟩ := lastPart.exists_lastToken more
  obtain ⟨before, after, split, -⟩ := ends.split
  have range_stop := ends.stop_eq
  -- the tree in front contains the last one or stands before it
  have low : first.start ≤ token.start := by
    rcases order with contains | earlier
    · exact ends.start_le_of_contains lastPart contains least
    · exact Nat.le_trans earlier ends.start_le
  refine ⟨token.shift excerpt.base, gap, ?_, ⟨last, inLast, ?_⟩, ?_, ends.skipped, ?_, ?_⟩
  · refine ⟨List.mem_map.2 ⟨token, by simp [split], rfl⟩, Nat.add_le_add_right low _, ?_, ?_⟩
    · show token.stop + excerpt.base ≤ last.range.stop + excerpt.base
      omega
    · rw [List.forall_mem_map]
      intro other member inside
      have inside : other.start < last.range.stop := Nat.lt_of_add_lt_add_right inside
      exact Nat.add_le_add_right (ends.le_of_start_lt member inside) _
  · obtain ⟨front, c, text_eq, -, stop⟩ := ends.text_eq
    show excerpt.base + last.start + last.text.length = token.stop + excerpt.base + gap.length
    rw [text_eq, stop]
    simp only [List.length_append, List.length_cons]
    omega
  · have behind := (ends.gap_prefix lastPart).trans (List.IsPrefix.drop lies.text_prefix token.stop)
    rw [List.drop_drop, Nat.add_comm] at behind
    exact behind
  · show last.range.stop + excerpt.base = token.stop + excerpt.base + _
    omega
  · show last.range.stop + excerpt.base = token.stop + excerpt.base ↔ _
    rw [← ends.stop_eq_iff]
    omega

/-! ## Published ranges are spanned -/

theorem Location.Drawn.spans {shape : Shape} {location : Location shape}
    (drawn : location.Drawn excerpt tree) (published : location.Publishes range) :
    excerpt.Spans tree range := by
  cases published with
  | whole => exact drawn.marks.range_eq ▸ Excerpt.spans_range .refl drawn.least
  | required recorded => exact drawn.marks.required _ range recorded
  | optional recorded => exact drawn.marks.optional _ range recorded

theorem spans_typeParams {params : List TypeParam}
    (lists : tree.Lists (TypeParam.ReadOff excerpt) params)
    (published : ∃ param ∈ params, param.Publishes range) : excerpt.Spans tree range := by
  obtain ⟨param, member, location, written, published⟩ := published
  obtain ⟨inner, contains, other, same, drawn⟩ := lists.exists_origin param member
  obtain rfl := Option.some.inj (same.symm.trans written)
  exact (drawn.spans published).trans contains

theorem MethodType.ReadOff.spans {type : MethodType} (readOff : type.ReadOff excerpt tree)
    (published : type.Publishes range) : excerpt.Spans tree range := by
  rcases published with ⟨location, written, published⟩ | published
  · obtain rfl := Option.some.inj (readOff.location.symm.trans written)
    cases published with
    | whole => exact Excerpt.spans_range .refl readOff.least
    | required recorded => cases recorded
    | optional recorded => cases recorded
  · exact spans_typeParams readOff.typeParams published

theorem spans_overloads {types : List MethodType}
    (lists : tree.Lists (MethodType.ReadOff excerpt) types)
    (published : ∃ type ∈ types, type.Publishes range) : excerpt.Spans tree range := by
  obtain ⟨type, member, published⟩ := published
  obtain ⟨inner, contains, readOff⟩ := lists.exists_origin type member
  exact (readOff.spans published).trans contains

theorem Member.ReadOff.spans {member : Member} (readOff : member.ReadOff excerpt tree)
    (published : member.Publishes range) : excerpt.Spans tree range := by
  cases member with
  | method definition =>
      rcases published with published | published
      · exact readOff.1.spans published
      · exact spans_overloads readOff.2 published
  | mixin inclusion => exact Location.Drawn.spans readOff published
  | attr accessor => exact Location.Drawn.spans readOff published
  | nested declaration => cases published

theorem Form.ReadOff.spans {form : Form} (readOff : form.ReadOff excerpt tree)
    (published : form.Publishes range) : excerpt.Spans tree range := by
  cases form with
  | ofClass superclass location =>
      rcases published with published | ⟨reference, member, rfl⟩
      · exact readOff.1.spans published
      · exact (readOff.2 reference member).spans
  | ofModule selfTypes location =>
      rcases published with published | ⟨reference, member, rfl⟩
      · exact readOff.1.spans published
      · exact (readOff.2 reference member).spans

theorem Declaration.ReadOff.spans {declaration : Declaration}
    (readOff : declaration.ReadOff excerpt tree) (published : declaration.Publishes range) :
    excerpt.Spans tree range := by
  rcases published with published | published | ⟨member, inside, published⟩
  · exact Form.ReadOff.spans readOff.heading.form published
  · exact spans_typeParams readOff.heading.typeParams published
  · obtain ⟨inner, contains, origin⟩ := readOff.members.exists_origin member inside
    exact (origin.spans published).trans contains

/-! ## Whole texts -/

/-- The text has tokens, and each published range stops with the last one in it, up to what was
skipped there. -/
def StopAtTokens (rule : Rule) (buffer : Buffer) (range : Range) (published : Range → Prop) :
    Prop :=
  (∃ tree tokens, Tokenized rule buffer range tree tokens) ∧
    ∀ tree tokens, Tokenized rule buffer range tree tokens → ∀ place, published place →
      ∃ token gap, Stops buffer range.start tree tokens place token gap

/-- Where everything published is spanned in the tree of the text, it stops at tokens. -/
theorem stopAtTokens_of_spans {rule : Rule} {buffer : Buffer} {published : Range → Prop}
    (opened : Excerpt.ofRange buffer range = .ok excerpt)
    (parsed : parse rule excerpt.text = .ok tree)
    (spans : ∀ tokens last, Part ⟨0, excerpt.text⟩ tokens last tree →
      ∀ place, published place → excerpt.Spans tree place) :
    StopAtTokens rule buffer range published := by
  obtain ⟨rfl, base_eq, text_eq, lies⟩ := Excerpt.lies_ofRange opened
  constructor
  · obtain ⟨tokens, last, derives⟩ := exists_derives_of_parse parsed
    exact ⟨tree, _, text_eq ▸ parsed, tokens, last, rfl, text_eq ▸ derives⟩
  · rintro other tokens ⟨again, own, last, rfl, derives⟩ place published
    rw [← text_eq] at again derives
    obtain rfl := Except.ok.inj (parsed.symm.trans again)
    rw [← base_eq]
    have part := Part.whole derives
    exact (spans own last part place published).exists_stops lies part

/-- In signature documents, lists of overloads and lists of type parameters, whatever range of
whatever buffer they are read from, each published range stops at the last token in it, or behind
blanks and comments that the grammar skipped there as part of the production that the range ends
with. It stops with the token exactly if there is no comment among these. -/
theorem published_stop_iff (buffer : Buffer) :
    (∀ declarations, readSignature buffer = .ok declarations →
      StopAtTokens .document buffer buffer.all fun place =>
        ∃ declaration ∈ declarations, ∃ inner : Declaration, inner.Among declaration ∧
          inner.Publishes place) ∧
    (∀ range scope types, readOverloads buffer range scope = .ok types →
      StopAtTokens .wholeMethodTypes buffer range fun place =>
        ∃ type ∈ types, type.Publishes place) ∧
    ∀ range scope params, readGenerics buffer range scope = .ok params →
      StopAtTokens .wholeTypeParams buffer range fun place =>
        ∃ param ∈ params, param.Publishes place := by
  refine ⟨fun declarations read => ?_, fun range scope types read => ?_,
    fun range scope params read => ?_⟩
  · obtain ⟨excerpt, tree, opened, parsed, means⟩ := exists_of_readRange read
    refine stopAtTokens_of_spans opened parsed fun tokens last part place published => ?_
    obtain ⟨declaration, member, inner, among, published⟩ := published
    obtain ⟨outer, contains, readThroughout⟩ :=
      (lists_readDeclarations part means).exists_origin declaration member
    obtain ⟨origin, further, readOff⟩ := readThroughout.among inner among
    exact (readOff.spans published).trans (contains.trans further)
  · obtain ⟨excerpt, tree, opened, parsed, means⟩ := exists_of_readRange read
    refine stopAtTokens_of_spans opened parsed fun tokens last part place published => ?_
    exact spans_overloads (lists_readMethodTypes part means (fun _ => .of_mem)
      part.children_pairwise) published
  · obtain ⟨excerpt, tree, opened, parsed, means⟩ := exists_of_readRange read
    refine stopAtTokens_of_spans opened parsed fun tokens last part place published => ?_
    exact spans_typeParams (lists_readTypeParams means (fun _ => .of_mem)
      part.children_pairwise) published

/-- A class with a comment after the name of its superclass. -/
def annotated : Buffer := .ofString "annotated.rbs" "class A < B # c\nend\n"

/-- A class, two overloads and a type parameter, each with a comment behind its last token. -/
theorem published_stop_iff_annotated :
    (∃ declarations, readSignature annotated = .ok declarations ∧ declarations.length = 1 ∧
      StopAtTokens .document annotated annotated.all fun place =>
        ∃ declaration ∈ declarations, ∃ inner : Declaration, inner.Among declaration ∧
          inner.Publishes place) ∧
    (∃ types, readOverloads (.ofString "" "() -> A # c\n | [T] () -> T ") ⟨0, 27⟩ [] = .ok types ∧
      types.length = 2 ∧
      StopAtTokens .wholeMethodTypes (.ofString "" "() -> A # c\n | [T] () -> T ") ⟨0, 27⟩
        fun place => ∃ type ∈ types, type.Publishes place) ∧
    ∃ params, readGenerics (.ofString "" "out T < A # c") ⟨0, 13⟩ [] = .ok params ∧
      params.length = 1 ∧
      StopAtTokens .wholeTypeParams (.ofString "" "out T < A # c") ⟨0, 13⟩ fun place =>
        ∃ param ∈ params, param.Publishes place := by
  have declared : ∃ declarations, readSignature annotated = .ok declarations ∧
      declarations.length = 1 := by decide +kernel
  have overloads : ∃ types, readOverloads (.ofString "" "() -> A # c\n | [T] () -> T ") ⟨0, 27⟩
      [] = .ok types ∧ types.length = 2 := by decide +kernel
  have generics : ∃ params, readGenerics (.ofString "" "out T < A # c") ⟨0, 13⟩ [] = .ok params ∧
      params.length = 1 := by decide +kernel
  obtain ⟨declarations, read, length⟩ := declared
  obtain ⟨types, readTypes, two⟩ := overloads
  obtain ⟨params, readParams, one⟩ := generics
  obtain ⟨ofSignature, -, -⟩ := published_stop_iff annotated
  obtain ⟨-, ofOverloads, -⟩ := published_stop_iff (.ofString "" "() -> A # c\n | [T] () -> T ")
  obtain ⟨-, -, ofGenerics⟩ := published_stop_iff (.ofString "" "out T < A # c")
  exact ⟨⟨declarations, read, length, ofSignature _ read⟩,
    ⟨types, readTypes, two, ofOverloads _ _ _ readTypes⟩,
    ⟨params, readParams, one, ofGenerics _ _ _ readParams⟩⟩

/-- The location of the superclass ends with the comment and not with its last token, the name. -/
theorem superclass_stop_annotated :
    ∃ declarations, readSignature annotated = .ok declarations ∧
      declarations.map (fun declaration =>
        declaration.superclass.map fun reference =>
          (reference.name.print, reference.location.source)) =
        [some (['B'], ['B', ' ', '#', ' ', 'c'])] := by
  decide +kernel

end Signet
