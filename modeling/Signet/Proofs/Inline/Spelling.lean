import Signet.Inline.Overloads
import Signet.Proofs.Inline.Groups

/-!
# Where annotations come from

Everything that an annotation says was read from a text of its own, which was carved out of the
comments (`Annotation.Spelled`). Sorting the annotations of a method makes up nothing
(`Sorted.Among`), so each overload that is decided for it was read as a method type, or it was
drafted and has no type parameters (`exists_annotation_of_decideOverloads`).
-/

namespace Signet.Inline

open Text Ruby

variable {scope : List String} {buffer : Buffer} {range : Range}

/-! ## Reading -/

/-- What the annotation says is spelled out in some text: types in the type variables in scope, type
parameters in none. -/
def Annotation.Spelled (scope : List String) : Annotation → Prop
  | .result note | .param _ note => ∃ text : Buffer, readType text text.all scope = .ok note.type
  | .overloads types _ | .colon types _ =>
    ∃ text : Buffer, readOverloads text text.all scope = .ok types
  | .generic added _ => ∃ (text : Buffer) (params : List TypeParam),
    readGenerics text text.all [] = .ok params ∧ added ∈ params
  | .skip _ | .override _ => True

theorem exists_of_readPayload {α : Type} {ranges : List Range} {location : Location .plain}
    {read : Buffer → Range → Except ParseError α} {value : α}
    (found : readPayload buffer ranges location read = .ok (.ok value)) :
    ∃ payload : Buffer, read payload payload.all = .ok value := by
  obtain ⟨payload, -, same⟩ := bind_eq_ok_iff.1 found
  refine ⟨payload, ?_⟩
  have same := Except.ok.inj same
  cases means : read payload payload.all with
  | ok other =>
      rw [means] at same
      rw [Except.ok.inj same]
  | error error =>
      rw [means] at same
      cases same

/-- What is mapped from a value that was read. -/
theorem exists_of_map {ε α β : Type} {result : Except ε α} {f : α → β} {value : β}
    (mapped : result.map f = .ok value) : ∃ found, result = .ok found ∧ f found = value := by
  cases result with
  | ok found => exact ⟨found, rfl, Except.ok.inj mapped⟩
  | error error => cases mapped

theorem spelled_readTypeAnnotation {note : TypeAnnotation}
    (read : readTypeAnnotation buffer scope range = .ok (.ok note)) :
    ∃ text : Buffer, readType text text.all scope = .ok note.type := by
  obtain ⟨inner, -, read⟩ := bind_eq_ok_iff.1 read
  obtain ⟨location, -, read⟩ := bind_eq_ok_iff.1 read
  obtain ⟨type, found, same⟩ := bind_eq_ok_iff.1 read
  obtain ⟨type, rfl, rfl⟩ := exists_of_map (Except.ok.inj same)
  exact exists_of_readPayload found

theorem spelled_readDirective {annotations : List Annotation}
    (read : readDirective buffer scope range = .ok (.ok annotations)) :
    ∀ annotation ∈ annotations, annotation.Spelled scope := by
  obtain ⟨inner, -, read⟩ := bind_eq_ok_iff.1 read
  obtain ⟨payload, -, read⟩ := bind_eq_ok_iff.1 read
  split at read
  · obtain ⟨location, -, same⟩ := bind_eq_ok_iff.1 read
    obtain rfl := Except.ok.inj (Except.ok.inj same)
    exact List.forall_mem_singleton.2 trivial
  · obtain ⟨location, -, same⟩ := bind_eq_ok_iff.1 read
    obtain rfl := Except.ok.inj (Except.ok.inj same)
    exact List.forall_mem_singleton.2 trivial
  · obtain ⟨location, -, read⟩ := bind_eq_ok_iff.1 read
    obtain ⟨params, found, same⟩ := bind_eq_ok_iff.1 read
    obtain ⟨params, rfl, rfl⟩ := exists_of_map (Except.ok.inj same)
    obtain ⟨text, means⟩ := exists_of_readPayload found
    rw [List.forall_mem_map]
    exact fun param member => ⟨text, params, means, member⟩
  · obtain ⟨note, found, same⟩ := bind_eq_ok_iff.1 read
    obtain ⟨note, rfl, rfl⟩ := exists_of_map (Except.ok.inj same)
    have spelled := spelled_readTypeAnnotation found
    split
    · exact List.forall_mem_singleton.2 spelled
    · exact List.forall_mem_singleton.2 spelled
  · obtain ⟨location, -, read⟩ := bind_eq_ok_iff.1 read
    obtain ⟨types, found, same⟩ := bind_eq_ok_iff.1 read
    obtain ⟨types, rfl, rfl⟩ := exists_of_map (Except.ok.inj same)
    exact List.forall_mem_singleton.2 (exists_of_readPayload found)
  · obtain ⟨location, -, same⟩ := bind_eq_ok_iff.1 read
    cases same

theorem spelled_readGroup {group : Group} {annotations : List Annotation}
    (read : group.read buffer scope = .ok (.ok annotations)) :
    ∀ annotation ∈ annotations, annotation.Spelled scope := by
  cases group with
  | methodType first more =>
      obtain ⟨location, -, read⟩ := bind_eq_ok_iff.1 read
      obtain ⟨types, found, same⟩ := bind_eq_ok_iff.1 read
      obtain ⟨types, rfl, rfl⟩ := exists_of_map (Except.ok.inj same)
      exact List.forall_mem_singleton.2 (exists_of_readPayload found)
  | dangling payload =>
      obtain ⟨location, -, same⟩ := bind_eq_ok_iff.1 read
      cases same
  | directive payload => exact spelled_readDirective read
  | doc text range =>
      obtain rfl := Except.ok.inj (Except.ok.inj read)
      exact nofun

/-- The annotations of a block are those of its groups. -/
theorem spelled_readGroups : ∀ (groups : List Group) (block : LeadingBlock) {next : LeadingBlock},
    (∀ annotation ∈ block.annotations, annotation.Spelled scope) →
    groups.foldlM (fun block group => do return block.add (← group.read buffer scope)) block =
      .ok next → ∀ annotation ∈ next.annotations, annotation.Spelled scope
  | [], block, next, spelled, read => by
    obtain rfl := Except.ok.inj read
    exact spelled
  | group :: groups, block, next, spelled, read => by
    rw [List.foldlM_cons] at read
    obtain ⟨middle, here, later⟩ := bind_eq_ok_iff.1 read
    obtain ⟨outcome, means, same⟩ := bind_eq_ok_iff.1 here
    obtain rfl := Except.ok.inj same
    refine spelled_readGroups groups _ ?_ later
    cases outcome with
    | ok annotations => exact List.forall_mem_append.2 ⟨spelled, spelled_readGroup means⟩
    | error diagnostic => exact spelled

theorem spelled_readLeading {comments : List CommentLine} {block : LeadingBlock}
    (read : readLeading buffer scope comments = .ok block) :
    ∀ annotation ∈ block.annotations, annotation.Spelled scope := by
  rw [readLeading_eq] at read
  obtain ⟨found, means, read⟩ := bind_eq_ok_iff.1 read
  obtain ⟨doc, -, same⟩ := bind_eq_ok_iff.1 read
  obtain rfl := Except.ok.inj same
  have spelled : ∀ annotation ∈ found.annotations, annotation.Spelled scope :=
    spelled_readGroups (groups buffer comments) {} (fun _ => nofun) means
  exact spelled

theorem spelled_readTrailing {comment : CommentLine} {note : TypeAnnotation}
    (read : readTrailing buffer scope comment = .ok (.assertion note)) :
    ∃ text : Buffer, readType text text.all scope = .ok note.type := by
  unfold readTrailing at read
  split at read
  · obtain ⟨outcome, found, read⟩ := bind_eq_ok_iff.1 read
    cases outcome with
    | ok other =>
        obtain rfl := Trailing.assertion.inj (Except.ok.inj read)
        exact spelled_readTypeAnnotation found
    | error diagnostic => cases read
  · cases read

/-! ## Sorting -/

/-- All that is sorted is among some annotations. -/
structure Sorted.Among (annotations : List Annotation) (sorted : Sorted) : Prop where
  colons : ∀ written ∈ sorted.colons, .colon written.types written.location ∈ annotations
  list : ∀ written, sorted.list = some written →
    .overloads written.types written.location ∈ annotations
  result : ∀ note, sorted.result = some note → .result note ∈ annotations
  params : ∀ note ∈ sorted.params, .param note.1 note.2 ∈ annotations

namespace Sorted

variable {annotations : List Annotation} {sorted : Sorted}

theorem Among.add (among : sorted.Among annotations) {added : Annotation}
    (here : added ∈ annotations) : (sorted.add added).Among annotations := by
  cases added with
  | colon types location =>
      exact { among with
        colons := List.forall_mem_append.2 ⟨among.colons, List.forall_mem_singleton.2 here⟩ }
  | overloads types location =>
      -- a second list of overloads is not used, nor a second result
      unfold Sorted.add
      dsimp only
      split
      · exact { among with }
      · exact { among with list := fun _ same => Option.some.inj same ▸ here }
  | result note =>
      unfold Sorted.add
      dsimp only
      split
      · exact { among with }
      · exact { among with result := fun _ same => Option.some.inj same ▸ here }
  | param name note =>
      exact { among with
        params := List.forall_mem_append.2 ⟨among.params, List.forall_mem_singleton.2 here⟩ }
  | generic param location => exact { among with }
  | skip location => exact among
  | override location => exact among

theorem among_foldl {more : List Annotation} (among : sorted.Among annotations)
    (inside : more ⊆ annotations) : (more.foldl add sorted).Among annotations := by
  induction more generalizing sorted with
  | nil => exact among
  | cons annotation more ih =>
      obtain ⟨here, later⟩ := List.cons_subset.1 inside
      exact ih (among.add here) later

theorem among_ofAnnotations (annotations : List Annotation) :
    (ofAnnotations annotations).Among annotations :=
  among_foldl ⟨nofun, nofun, nofun, nofun⟩ (List.Subset.refl _)

end Sorted

/-- Where whole method types decide, each overload is in an annotation. -/
theorem exists_annotation_of_decideExplicit {annotations : List Annotation} {sorted : Sorted}
    (among : sorted.Among annotations) (trailing : Option TypeAnnotation) :
    ∀ type ∈ (decideExplicit sorted trailing).overloads, ∃ types location, type ∈ types ∧
      (.colon types location ∈ annotations ∨ .overloads types location ∈ annotations) := by
  intro type member
  unfold decideExplicit at member
  cases empty : sorted.colons.isEmpty with
  | true =>
      rw [empty] at member
      obtain ⟨written, used, member⟩ := List.mem_flatMap.1 member
      exact ⟨_, _, member, .inr (among.list written (Option.mem_toList.1 used))⟩
  | false =>
      rw [empty] at member
      obtain ⟨written, used, member⟩ := List.mem_flatMap.1 member
      exact ⟨_, _, member, .inl (among.colons written used)⟩

/-- An overload that is decided is in an annotation, or it has no type parameters. -/
theorem exists_annotation_of_decideOverloads {annotations : List Annotation}
    {trailing : Option TypeAnnotation} {overriding : Bool} {params : List RubyParam}
    {decision : Decision}
    (decided : decideOverloads annotations trailing overriding params = .ok decision) :
    ∀ type ∈ decision.overloads, type.typeParams = [] ∨ ∃ types location, type ∈ types ∧
      (.colon types location ∈ annotations ∨ .overloads types location ∈ annotations) := by
  have among := Sorted.among_ofAnnotations annotations
  unfold decideOverloads at decided
  dsimp only at decided
  split at decided
  · obtain rfl := Except.ok.inj decided
    exact List.forall_mem_nil _
  · split at decided
    · obtain rfl := Except.ok.inj decided
      exact fun type member => .inr (exists_annotation_of_decideExplicit among trailing type member)
    · -- the one method type for the parameter list, or the one that leaves everything open
      obtain ⟨result, -, decided⟩ := bind_eq_ok_iff.1 decided
      split at decided
      · obtain rfl := Except.ok.inj decided
        exact List.forall_mem_singleton.2 (.inl rfl)
      · obtain rfl := Except.ok.inj decided
        exact List.forall_mem_singleton.2 (.inl rfl)

end Signet.Inline
