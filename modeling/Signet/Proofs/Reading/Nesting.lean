import Signet.Proofs.Reading.Origins

/-!
# Published locations are nested and in order

The locations of a signature document form a tree that is laid out in the text as the grammar lays
out its own: what is in a declaration, a member or an overload has a location inside that of the
container, and what stands one after the other has ranges that do not overlap
(`readSignature_laidOut`). Ranges are trimmed one by one, a range on the inside apart from that
around it; trimming takes less on the outside, where more text follows.
-/

namespace Signet

open Grammar Text

/-! ## Layout -/

/-- The location is in the buffer, and its parts are inside it. -/
structure Location.Nested {shape : Shape} (buffer : Buffer) (location : Location shape) : Prop where
  buffer_eq : location.buffer = buffer
  required : ∀ key range, location.required key = some range → range.Inside location.range
  optional : ∀ key range, location.optional key = .present range → range.Inside location.range

/-- The type parameter has a location inside a range. -/
def TypeParam.LaidOut (buffer : Buffer) (outer : Range) (param : TypeParam) : Prop :=
  ∃ location, param.location = some location ∧ location.Nested buffer ∧
    location.range.Inside outer

/-- The overload has a location inside a range, and its type parameters have theirs inside it. -/
def MethodType.LaidOut (buffer : Buffer) (outer : Range) (type : MethodType) : Prop :=
  ∃ location, type.location = some location ∧ location.Nested buffer ∧
    location.range.Inside outer ∧ ∀ param ∈ type.typeParams, param.LaidOut buffer location.range

/-- Where both overloads have a location, that of the first stops before that of the second. -/
def MethodType.Precedes (one two : MethodType) : Prop :=
  ∀ first second, one.location = some first → two.location = some second →
    first.range.stop ≤ second.range.start

/-- The parts of a member are inside it, and so are the overloads of a method, in order. What is in
a nested declaration is left to that one. -/
def Member.PartsLaidOut (buffer : Buffer) : Member → Prop
  | .method definition => definition.location.Nested buffer ∧
    (∀ type ∈ definition.overloads, type.LaidOut buffer definition.location.range) ∧
      definition.overloads.Pairwise MethodType.Precedes
  | .mixin inclusion => inclusion.location.Nested buffer
  | .attr accessor => accessor.location.Nested buffer
  | .nested _ => True

/-- The superclass or the self types. -/
def Form.references : Form → List Reference
  | .ofClass superclass _ => superclass.toList
  | .ofModule selfTypes _ => selfTypes

/-- The location of a class or a module has its parts inside it. -/
def Form.Nested (buffer : Buffer) : Form → Prop
  | .ofClass _ location => location.Nested buffer
  | .ofModule _ location => location.Nested buffer

/-- What is right in a declaration is inside it, and its members are in order. -/
structure Declaration.LaidOut (buffer : Buffer) (declaration : Declaration) : Prop where
  form : declaration.heading.form.Nested buffer
  typeParams : ∀ param ∈ declaration.typeParams,
    param.LaidOut buffer declaration.location.range
  references : ∀ reference ∈ declaration.heading.form.references,
    reference.location.buffer = buffer ∧
      reference.location.range.Inside declaration.location.range
  members : ∀ member ∈ declaration.members, member.PartsLaidOut buffer ∧
    member.location.buffer = buffer ∧ member.location.range.Inside declaration.location.range
  ordered : declaration.members.Pairwise fun one two =>
    one.location.range.stop ≤ two.location.range.start

/-! ## From origins to layout -/

variable {excerpt : Excerpt} {tokens : List Range} {cursor next : Cursor}
  {tree inner one two : ParseTree}

/-- A tree in a tree has its range inside. -/
theorem Excerpt.inside_of_contains (excerpt : Excerpt) (part : Part cursor tokens next tree)
    (contains : tree.Contains inner) (least : 0 < inner.rule.least) :
    (excerpt.range inner).Inside (excerpt.range tree) :=
  (Excerpt.spans_range contains least).inside part

/-- A tree of the text has its range in the buffer. -/
theorem Excerpt.Lies.inside_all (lies : excerpt.Lies)
    (part : Part ⟨0, excerpt.text⟩ tokens next tree) (least : 0 < tree.rule.least) :
    (excerpt.range tree).Inside excerpt.buffer.all := by
  obtain ⟨token, gap, ends⟩ := part.exists_lastToken least
  have trimmed := ( trimEnd_prefix tree.text).length_le
  have stop : tree.start + tree.text.length ≤ 0 + excerpt.text.length := part.stop_le_length
  have last := lies.stop_le
  refine ⟨Nat.zero_le _, Nat.add_lt_add_right ends.start_lt_stop _, ?_⟩
  show tree.start + (Text.trimEnd tree.text).length + excerpt.base ≤ excerpt.buffer.content.length
  omega

/-- Trees that do not overlap have ranges that do not. -/
theorem Excerpt.range_stop_le (excerpt : Excerpt)
    (apart : one.start + one.text.length ≤ two.start) :
    (excerpt.range one).stop ≤ (excerpt.range two).start := by
  have trimmed := ( trimEnd_prefix one.text).length_le
  show one.start + (Text.trimEnd one.text).length + excerpt.base ≤ two.start + excerpt.base
  omega

/-- Items that come from trees one after the other stand in whatever relation the trees put them
in. -/
theorem Grammar.ParseTree.Lists.pairwise {α : Type} {origin : α → ParseTree → Prop}
    {follows : α → α → Prop} {items : List α} (lists : tree.Lists origin items)
    (apart : ∀ one two first second, origin first one → origin second two →
      one.start + one.text.length ≤ two.start → follows first second) :
    items.Pairwise follows := by
  obtain ⟨trees, -, ordered, all⟩ := lists
  induction all with
  | nil => exact .nil
  | @cons inner item trees items here rest ih =>
      obtain ⟨first, ordered⟩ := List.pairwise_cons.1 ordered
      refine .cons (fun other member => ?_) (ih ordered)
      obtain ⟨next, inside, there⟩ := exists_of_forall₂ rest other member
      exact apart _ _ _ _ here there (first next inside)

namespace Location.Drawn

variable {shape : Shape} {location : Location shape}

theorem nested (drawn : location.Drawn excerpt tree) (part : Part cursor tokens next tree) :
    location.Nested excerpt.buffer where
  buffer_eq := drawn.marks.buffer_eq
  required := fun key range recorded =>
    drawn.marks.range_eq ▸ (drawn.marks.required key range recorded).inside part
  optional := fun key range recorded =>
    drawn.marks.range_eq ▸ (drawn.marks.optional key range recorded).inside part

/-- A location of a tree in a tree is inside it. -/
theorem inside (drawn : location.Drawn excerpt inner) (part : Part cursor tokens next tree)
    (contains : tree.Contains inner) : location.range.Inside (excerpt.range tree) :=
  drawn.marks.range_eq ▸ excerpt.inside_of_contains part contains drawn.least

end Location.Drawn

theorem TypeParam.ReadOff.laidOut {param : TypeParam} (readOff : param.ReadOff excerpt inner)
    (part : Part cursor tokens next tree) (contains : tree.Contains inner) :
    param.LaidOut excerpt.buffer (excerpt.range tree) := by
  obtain ⟨location, written, drawn⟩ := readOff
  exact ⟨location, written, drawn.nested (contains.part part), drawn.inside part contains⟩

theorem laidOut_typeParams {params : List TypeParam}
    (lists : tree.Lists (TypeParam.ReadOff excerpt) params) (part : Part cursor tokens next tree) :
    ∀ param ∈ params, param.LaidOut excerpt.buffer (excerpt.range tree) := by
  intro param member
  obtain ⟨inner, contains, readOff⟩ := lists.exists_origin param member
  exact readOff.laidOut part contains

theorem MethodType.ReadOff.laidOut {type : MethodType} (readOff : type.ReadOff excerpt inner)
    (part : Part cursor tokens next tree) (contains : tree.Contains inner) :
    type.LaidOut excerpt.buffer (excerpt.range tree) :=
  ⟨_, readOff.location, ⟨rfl, nofun, nofun⟩,
    excerpt.inside_of_contains part contains readOff.least,
    laidOut_typeParams readOff.typeParams (contains.part part)⟩

theorem MethodType.ReadOff.precedes {first second : MethodType}
    (here : first.ReadOff excerpt one) (there : second.ReadOff excerpt two)
    (apart : one.start + one.text.length ≤ two.start) : first.Precedes second := by
  intro before after written then_written
  obtain rfl := Option.some.inj (here.location.symm.trans written)
  obtain rfl := Option.some.inj (there.location.symm.trans then_written)
  exact excerpt.range_stop_le apart

/-- The range of a declaration is that of its tree. -/
theorem Heading.ReadOff.location {heading : Heading} (readOff : heading.ReadOff excerpt tree) :
    0 < tree.rule.least ∧ heading.location.buffer = excerpt.buffer ∧
      heading.location.range = excerpt.range tree := by
  obtain ⟨name, typeParams, comment, form⟩ := heading
  have drawn := readOff.form
  cases form with
  | ofClass superclass location =>
      exact ⟨drawn.1.least, drawn.1.marks.buffer_eq, drawn.1.marks.range_eq⟩
  | ofModule selfTypes location =>
      exact ⟨drawn.1.least, drawn.1.marks.buffer_eq, drawn.1.marks.range_eq⟩

theorem Form.ReadOff.nested {form : Form} (readOff : form.ReadOff excerpt tree)
    (part : Part cursor tokens next tree) : form.Nested excerpt.buffer := by
  cases form with
  | ofClass superclass location => exact readOff.1.nested part
  | ofModule selfTypes location => exact readOff.1.nested part

/-- A superclass or a self type is inside the declaration. -/
theorem Form.ReadOff.references {form : Form} (readOff : form.ReadOff excerpt tree) :
    ∀ reference ∈ form.references, reference.ReadOff excerpt tree := by
  intro reference member
  cases form with
  | ofClass superclass location =>
      exact readOff.2 reference (by simpa [Form.references] using member)
  | ofModule selfTypes location => exact readOff.2 reference member

/-- The range of a member is that of its tree. -/
theorem Member.ReadOff.location {member : Member} (readOff : member.ReadOff excerpt tree) :
    0 < tree.rule.least ∧ member.location.buffer = excerpt.buffer ∧
      member.location.range = excerpt.range tree := by
  cases member with
  | method definition =>
      exact ⟨readOff.1.least, readOff.1.marks.buffer_eq, readOff.1.marks.range_eq⟩
  | mixin inclusion => exact ⟨readOff.least, readOff.marks.buffer_eq, readOff.marks.range_eq⟩
  | attr accessor => exact ⟨readOff.least, readOff.marks.buffer_eq, readOff.marks.range_eq⟩
  | nested declaration => exact Heading.ReadOff.location readOff

theorem Member.ReadOff.partsLaidOut {member : Member} (readOff : member.ReadOff excerpt tree)
    (part : Part cursor tokens next tree) : member.PartsLaidOut excerpt.buffer := by
  cases member with
  | method definition =>
      obtain ⟨drawn, overloads⟩ := readOff
      refine ⟨drawn.nested part, fun type member => ?_, ?_⟩
      · obtain ⟨inner, contains, readOff⟩ := overloads.exists_origin type member
        rw [drawn.marks.range_eq]
        exact readOff.laidOut part contains
      · exact overloads.pairwise fun _ _ _ _ => MethodType.ReadOff.precedes
  | mixin inclusion => exact Location.Drawn.nested readOff part
  | attr accessor => exact Location.Drawn.nested readOff part
  | nested declaration => trivial

theorem Declaration.ReadOff.laidOut {declaration : Declaration}
    (readOff : declaration.ReadOff excerpt tree) (part : Part cursor tokens next tree) :
    declaration.LaidOut excerpt.buffer := by
  obtain ⟨-, buffer_eq, range_eq⟩ := readOff.heading.location
  have range_eq : declaration.location.range = excerpt.range tree := range_eq
  refine ⟨Form.ReadOff.nested readOff.heading.form part, ?_, ?_, ?_, ?_⟩
  · rw [range_eq]
    exact laidOut_typeParams readOff.heading.typeParams part
  · rw [range_eq]
    intro reference member
    have origin := Form.ReadOff.references readOff.heading.form reference member
    exact ⟨origin.buffer_eq, origin.spans.inside part⟩
  · rw [range_eq]
    intro member inside
    obtain ⟨inner, contains, origin⟩ := readOff.members.exists_origin member inside
    obtain ⟨least, buffer_eq, same⟩ := origin.location
    exact ⟨origin.partsLaidOut (contains.part part), buffer_eq,
      same ▸ excerpt.inside_of_contains part contains least⟩
  · -- members are ordered as their trees are, since the range of each is that of its tree
    refine readOff.members.pairwise fun one two first second here there apart => ?_
    rw [here.location.2.2, there.location.2.2]
    exact excerpt.range_stop_le apart

/-! ## Signatures -/

/-- In every signature that is read, the parts of locations are inside them, and type parameters,
superclasses, self types, overloads and members have locations inside those of what they are in, at
every depth. The declarations of the document, the members of each declaration and the overloads of
each method have ranges in increasing order that do not overlap. -/
theorem readSignature_laidOut {buffer : Buffer} {declarations : List Declaration}
    (read : readSignature buffer = .ok declarations) :
    (∀ declaration ∈ declarations, declaration.location.buffer = buffer ∧
      declaration.location.range.Inside buffer.all ∧
        ∀ inner : Declaration, inner.Among declaration → inner.LaidOut buffer) ∧
      declarations.Pairwise fun one two => one.location.range.stop ≤ two.location.range.start := by
  obtain ⟨excerpt, tree, tokens, next, buffer_eq, lies, part, means⟩ :=
    exists_part_of_readRange read
  have lists := lists_readDeclarations part means
  refine ⟨fun declaration member => ?_, ?_⟩
  · obtain ⟨origin, contains, readThroughout⟩ := lists.exists_origin declaration member
    obtain ⟨least, same, range_eq⟩ := readThroughout.readOff.heading.location
    have whole : (excerpt.range origin).Inside buffer.all :=
      buffer_eq ▸ lies.inside_all (contains.part part) least
    refine ⟨same.trans buffer_eq, range_eq ▸ whole, fun inner among => ?_⟩
    obtain ⟨deeper, further, readOff⟩ := readThroughout.among inner among
    exact buffer_eq ▸ readOff.laidOut (further.part (contains.part part))
  · refine lists.pairwise fun one two first second here there apart => ?_
    show first.heading.location.range.stop ≤ second.heading.location.range.start
    rw [here.readOff.heading.location.2.2, there.readOff.heading.location.2.2]
    exact excerpt.range_stop_le apart

/-- A class with a superclass, overloads, comments and a class in it, and a module with self
types. -/
def layered : Buffer :=
  .ofString "layered.rbs"
    "class A[T < B] < B[T] # c\n  def f: (T) -> void | [U] () -> U # d\n  class B end\nend\nmodule M : A, _B\n  attr_reader x: A\nend"

theorem readSignature_laidOut_layered :
    ∃ declarations, readSignature layered = .ok declarations ∧
      declarations.map (·.members.map (·.location.range)) =
        [[⟨28, 64⟩, ⟨67, 78⟩], [⟨102, 118⟩]] ∧
      (∀ declaration ∈ declarations, ∀ inner : Declaration, inner.Among declaration →
        inner.LaidOut layered) ∧
      declarations.Pairwise fun one two => one.location.range.stop ≤ two.location.range.start := by
  have reads : ∃ declarations, readSignature layered = .ok declarations ∧
      declarations.map (·.members.map (·.location.range)) =
        [[⟨28, 64⟩, ⟨67, 78⟩], [⟨102, 118⟩]] := by
    decide +kernel
  obtain ⟨declarations, read, ranges⟩ := reads
  obtain ⟨laidOut, ordered⟩ := readSignature_laidOut read
  exact ⟨declarations, read, ranges, fun declaration member => (laidOut declaration member).2.2,
    ordered⟩

end Signet
