import Signet.Proofs.Reading.Nesting
import Signet.Proofs.Source.Locations

/-!
# Published locations are complete

A location that is read off a tree has all parts of its shape, and each of them lies inside the
tree. So every location in a document, in a list of overloads and in a list of type parameters is
complete (`complete_readSignature`, `complete_readOverloads`, `complete_readGenerics`).
-/

namespace Signet

open Grammar

/-! ## Completeness -/

/-- The type parameter has a location, and this one is complete. -/
def TypeParam.Complete (param : TypeParam) : Prop :=
  ∃ location, param.location = some location ∧ location.Complete

/-- The type parameters of the overload are complete. Its own location has no parts. -/
def MethodType.Complete (type : MethodType) : Prop :=
  ∀ param ∈ type.typeParams, param.Complete

/-- The location of the member is complete, and so are the overloads of a method. What is in a
nested declaration is left to that one. -/
def Member.Complete : Member → Prop
  | .method definition =>
    definition.location.Complete ∧ ∀ type ∈ definition.overloads, type.Complete
  | .mixin inclusion => inclusion.location.Complete
  | .attr accessor => accessor.location.Complete
  | .nested _ => True

/-- The location of a class or a module is complete. -/
def Form.Complete : Form → Prop
  | .ofClass _ location => location.Complete
  | .ofModule _ location => location.Complete

/-- The location of the declaration and those of its type parameters are complete. -/
structure Heading.Complete (heading : Heading) : Prop where
  form : heading.form.Complete
  typeParams : ∀ param ∈ heading.typeParams, param.Complete

/-- All locations in the declaration are complete, at any depth. -/
def Declaration.Complete (declaration : Declaration) : Prop :=
  ∀ inner : Declaration, inner.Among declaration →
    inner.heading.Complete ∧ ∀ member ∈ inner.members, member.Complete

/-! ## From origins to completeness -/

variable {excerpt : Excerpt} {tokens : List Range} {next : Cursor} {tree inner : ParseTree}

/-- Parts of a tree of the text fit the buffer, so that a location with all of them is complete. -/
theorem Location.Drawn.complete {shape : Shape} {location : Location shape}
    (drawn : location.Drawn excerpt tree) (lies : excerpt.Lies)
    (part : Part ⟨0, excerpt.text⟩ tokens next tree) : location.Complete := by
  have fits : ∀ range, excerpt.Spans tree range →
      range.fits location.buffer.length = true := by
    intro range spans
    obtain ⟨-, nonempty, stop⟩ := spans.inside part
    have whole := (lies.inside_all part drawn.least).stop_le
    rw [drawn.marks.buffer_eq]
    exact (range.fits_iff _).2 ⟨Nat.le_of_lt nonempty, Nat.le_trans stop whole⟩
  refine ⟨fun key member => ?_, fun key member => ?_⟩
  · obtain ⟨range, recorded⟩ := drawn.assigned.required key member
    exact Location.exists_requiredChild recorded
      (fits range (drawn.marks.required key range recorded))
  · cases recorded : location.optional key with
    | unset => exact (drawn.assigned.optional key member recorded).elim
    | absent => exact .inl rfl
    | present range =>
        exact .inr (Location.exists_optionalChild recorded
          (fits range (drawn.marks.optional key range recorded)))

theorem complete_typeParams {params : List TypeParam}
    (lists : tree.Lists (TypeParam.ReadOff excerpt) params) (lies : excerpt.Lies)
    (part : Part ⟨0, excerpt.text⟩ tokens next tree) : ∀ param ∈ params, param.Complete := by
  intro param member
  obtain ⟨inner, contains, location, written, drawn⟩ := lists.exists_origin param member
  exact ⟨location, written, drawn.complete lies (contains.part part)⟩

theorem complete_overloads {types : List MethodType}
    (lists : tree.Lists (MethodType.ReadOff excerpt) types) (lies : excerpt.Lies)
    (part : Part ⟨0, excerpt.text⟩ tokens next tree) : ∀ type ∈ types, type.Complete := by
  intro type member
  obtain ⟨inner, contains, readOff⟩ := lists.exists_origin type member
  exact complete_typeParams readOff.typeParams lies (contains.part part)

theorem Form.ReadOff.complete {form : Form} (readOff : form.ReadOff excerpt tree)
    (lies : excerpt.Lies) (part : Part ⟨0, excerpt.text⟩ tokens next tree) : form.Complete := by
  cases form with
  | ofClass superclass location => exact readOff.1.complete lies part
  | ofModule selfTypes location => exact readOff.1.complete lies part

theorem Member.ReadOff.complete {member : Member} (readOff : member.ReadOff excerpt tree)
    (lies : excerpt.Lies) (part : Part ⟨0, excerpt.text⟩ tokens next tree) : member.Complete := by
  cases member with
  | method definition =>
      exact ⟨readOff.1.complete lies part, complete_overloads readOff.2 lies part⟩
  | mixin inclusion => exact Location.Drawn.complete readOff lies part
  | attr accessor => exact Location.Drawn.complete readOff lies part
  | nested declaration => trivial

theorem Declaration.ReadThroughout.complete {declaration : Declaration}
    (readThroughout : declaration.ReadThroughout excerpt tree) (lies : excerpt.Lies)
    (part : Part ⟨0, excerpt.text⟩ tokens next tree) : declaration.Complete := by
  intro inner among
  obtain ⟨origin, contains, readOff⟩ := readThroughout.among inner among
  have part := contains.part part
  refine ⟨⟨Form.ReadOff.complete readOff.heading.form lies part,
    complete_typeParams readOff.heading.typeParams lies part⟩, fun member inside => ?_⟩
  obtain ⟨deeper, further, origin⟩ := readOff.members.exists_origin member inside
  exact origin.complete lies (further.part part)

/-! ## Whole texts -/

theorem complete_readSignature {buffer : Buffer} {declarations : List Declaration}
    (read : readSignature buffer = .ok declarations) :
    ∀ declaration ∈ declarations, declaration.Complete := by
  obtain ⟨excerpt, tree, tokens, next, -, lies, part, means⟩ := exists_part_of_readRange read
  intro declaration member
  obtain ⟨origin, contains, readThroughout⟩ :=
    (lists_readDeclarations part means).exists_origin declaration member
  exact readThroughout.complete lies (contains.part part)

variable {buffer : Buffer} {range : Range} {scope : List String}

theorem complete_readOverloads {types : List MethodType}
    (read : readOverloads buffer range scope = .ok types) : ∀ type ∈ types, type.Complete := by
  obtain ⟨excerpt, tree, tokens, next, -, lies, part, means⟩ := exists_part_of_readRange read
  exact complete_overloads (lists_readMethodTypes part means (fun _ => .of_mem)
    part.children_pairwise) lies part

theorem complete_readGenerics {params : List TypeParam}
    (read : readGenerics buffer range scope = .ok params) : ∀ param ∈ params, param.Complete := by
  obtain ⟨excerpt, tree, tokens, next, -, lies, part, means⟩ := exists_part_of_readRange read
  exact complete_typeParams (lists_readTypeParams means (fun _ => .of_mem)
    part.children_pairwise) lies part

end Signet
