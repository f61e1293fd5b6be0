import Signet.Proofs.Inline.History
import Signet.Proofs.Inline.Spelling
import Signet.Proofs.Reading.Completeness

/-!
# Extracted locations are complete

Whatever tokens a Ruby tree lacks, each location that is made for a class, a module or a member has
all parts of its shape (`Action.Writes`, `Heading.Written`), and type parameters come from texts
that were read on their own. The keyword of an attribute is an exception: it is assigned only if
the call names a method. The walk comes to an attribute in no other way (`keyed_sitesOf`), so
everything that is recorded is complete (`History.complete`).
-/

namespace Signet.Inline

open Text Ruby

variable {file : RubyFile} {node : Node} {scope : List String} {before after : Progress}

/-! ## What is written at a node -/

theorem complete_of_areDecided {types : List MethodType}
    (decided : AreDecided file scope node types) : ∀ type ∈ types, type.Complete := by
  obtain ⟨block, trailing, decision, read, -, decided, rfl⟩ := decided
  intro type member
  rcases exists_annotation_of_decideOverloads decided type member with none | found
  · -- an overload that was drafted from the parameters of the method
    intro param inside
    rw [none] at inside
    exact nomatch inside
  · obtain ⟨types, location, inside, annotated | annotated⟩ := found
    · obtain ⟨text, means⟩ := spelled_readLeading read _ annotated
      exact complete_readOverloads means type inside
    · obtain ⟨text, means⟩ := spelled_readLeading read _ annotated
      exact complete_readOverloads means type inside

/-- The attribute is defined by a call that names a method. -/
def Action.Keyed (node : Node) : Action → Prop
  | attr _ => (node.child? "method").isSome = true
  | _ => True

theorem Action.Writes.complete {action : Action} {member : Member}
    (writes : action.Writes file scope node member) (keyed : action.Keyed node) :
    member.Complete := by
  obtain ⟨⟨makes, -⟩, written⟩ := writes
  cases member with
  | method definition => exact ⟨written.2, complete_of_areDecided written.1⟩
  | mixin inclusion => exact written.2
  | attr accessor =>
      cases action with
      | attr kind => exact written.2 keyed
      | _ => exact makes.elim
  | nested declaration => exact written.elim

theorem Form.Written.complete {isModule : Bool} {form : Form}
    (written : Form.Written file node isModule scope form) : form.Complete := by
  cases form with
  | ofClass superclass location =>
      obtain ⟨-, has, -⟩ := written
      exact has.complete (by decide) (by decide)
  | ofModule selfTypes location =>
      obtain ⟨-, has, -⟩ := written
      exact has.complete (by decide) (by decide)

theorem Heading.Written.complete {isModule : Bool} {heading : Heading}
    (written : Heading.Written file node isModule heading) : heading.Complete := by
  obtain ⟨form, block, read, annotated⟩ := written
  refine ⟨Form.Written.complete form, fun param member => ?_⟩
  obtain ⟨location, inside⟩ := annotated param member
  obtain ⟨text, params, means, member⟩ := spelled_readLeading read _ inside
  exact complete_readGenerics means param member

/-! ## Sites -/

/-- At each site, also further inside, an attribute has its keyword. -/
inductive Keyed : List Site → Prop
  | nil : Keyed []
  | act {node : Node} {action : Action} {sites : List Site} : action.Keyed node → Keyed sites →
      Keyed (.act node action :: sites)
  | skipped {isModule : Bool} {node : Node} {sites : List Site} : Keyed sites →
      Keyed (.skipped isModule node :: sites)
  | unnamed {isModule : Bool} {node : Node} {inside sites : List Site} : Keyed inside →
      Keyed sites → Keyed (.unnamed isModule node inside :: sites)
  | declared {isModule : Bool} {node : Node} {name : TypeName} {inside sites : List Site} :
      Keyed inside → Keyed sites → Keyed (.declared isModule node name inside :: sites)

namespace Keyed

variable {sites more : List Site}

theorem single {action : Action} (keyed : action.Keyed node) : Keyed [.act node action] :=
  .act keyed .nil

theorem append (first : Keyed sites) (second : Keyed more) : Keyed (sites ++ more) := by
  induction first with
  | nil => exact second
  | act here _ ih => exact .act here ih
  | skipped _ ih => exact .skipped ih
  | unnamed inside _ _ ih => exact .unnamed inside ih
  | declared inside _ _ ih => exact .declared inside ih

/-- Anonymous nodes are passed over. -/
theorem append_ite {named : Bool} (first : Keyed sites) (second : Keyed more) :
    Keyed ((if named then sites else []) ++ more) := by
  cases named with
  | true => exact first.append second
  | false => exact second

theorem moduleSites {isModule : Bool} {all : List Site} {body : Bool → List Site}
    (children : Keyed all) (inside : ∀ known, Keyed (body known)) :
    Keyed (moduleSites file isModule node all body) := by
  unfold Inline.moduleSites
  cases namingOf file node with
  | headless => exact children
  | skipped => exact .skipped .nil
  | unnamed => exact .unnamed (inside false) .nil
  | named name => exact .declared (inside true) .nil

end Keyed

/-- A call defines attributes only by the name of its method. -/
theorem keyed_of_callKindIn {known : Bool} {kind : AttributeKind}
    (called : callKindIn file known node = .attr kind) : (Action.attr kind).Keyed node := by
  unfold callKindIn at called
  split at called
  · rename_i named
    exact congrArg Option.isSome named
  · cases called

-- One statement for each of the functions that list sites.
mutual

theorem keyed_sitesOf (file : RubyFile) (known : Bool) (parentKind : String) : ∀ node : Node,
    Keyed (sitesOf file known parentKind node)
  | ⟨head, children⟩ => by
      have all := keyed_sitesAmong file known head.kind children
      have body := fun known => keyed_sitesInBody file known head.kind headerFields children
      unfold sitesOf
      cases head.construct with
      | classDefinition => exact .moduleSites all body
      | moduleDefinition => exact .moduleSites all body
      | singletonClass => exact .single trivial
      | method => exact .single trivial
      | singletonMethod => exact .single trivial
      | identifier => exact .single trivial
      | other => exact all
      | call =>
          dsimp only
          cases called : callKindIn file known ⟨head, children⟩ with
          | mixin kind => exact .single trivial
          | attr kind => exact .single (keyed_of_callKindIn called)
          | modifier visibility => exact keyed_sitesInArguments file known _ children
          | other => exact all

theorem keyed_sitesAmong (file : RubyFile) (known : Bool) (parentKind : String) :
    ∀ nodes : List Node, Keyed (sitesAmong file known parentKind nodes)
  | [] => .nil
  | ⟨head, children⟩ :: nodes => by
      unfold sitesAmong
      exact .append_ite (keyed_sitesOf file known parentKind ⟨head, children⟩)
        (keyed_sitesAmong file known parentKind nodes)

theorem keyed_sitesInBody (file : RubyFile) (known : Bool) (parentKind : String)
    (header : List String) :
    ∀ nodes : List Node, Keyed (sitesInBody file known parentKind header nodes)
  | [] => .nil
  | ⟨head, children⟩ :: nodes => by
      unfold sitesInBody
      split
      · exact keyed_sitesInBody file known parentKind _ nodes
      · exact .append_ite (keyed_sitesOf file known parentKind ⟨head, children⟩)
          (keyed_sitesInBody file known parentKind header nodes)

theorem keyed_sitesInArguments (file : RubyFile) (known : Bool) (modifier : Modifier) :
    ∀ nodes : List Node, Keyed (sitesInArguments file known modifier nodes)
  | [] => .nil
  | ⟨head, children⟩ :: nodes => by
      unfold sitesInArguments
      split
      · exact keyed_sitesModified file known modifier head.kind children
      · exact keyed_sitesInArguments file known modifier nodes

theorem keyed_sitesModified (file : RubyFile) (known : Bool) (modifier : Modifier)
    (parentKind : String) :
    ∀ nodes : List Node, Keyed (sitesModified file known modifier parentKind nodes)
  | [] => .nil
  | ⟨head, children⟩ :: nodes => by
      have here := keyed_sitesOf file known parentKind ⟨head, children⟩
      unfold sitesModified
      refine .append_ite ?_ (keyed_sitesModified file known modifier parentKind nodes)
      cases head.construct with
      | method => exact .single trivial
      | singletonMethod => exact .single trivial
      | _ => exact here

end

/-! ## Declarations -/

/-- A member is complete, and so is all that is in a nested declaration. -/
def Member.Throughout (member : Member) : Prop :=
  member.Complete ∧ ∀ declaration, member = .nested declaration → declaration.Complete

theorem complete_declaration {heading : Heading} {members : List Member}
    (complete : heading.Complete) (throughout : ∀ member ∈ members, Member.Throughout member) :
    Declaration.Complete ⟨heading, members⟩ :=
  Declaration.forall_among_iff.2 ⟨⟨complete, fun member inside => (throughout member inside).1⟩,
    fun declaration inside => (throughout _ inside).2 declaration rfl⟩

/-- The members and the results that are recorded are complete. -/
theorem History.complete {sites : List Site} {events : List Event}
    (history : History file sites before events after) (keyed : Keyed sites) :
    (∀ member ∈ membersOf events, Member.Throughout member) ∧
      ∀ known context, ∀ record ∈ recordsOf known context events, record.declaration.Complete := by
  -- By hand and not by `History.induction`: what a heading was read from is only in the run that
  -- read it. Which context a record is in plays no part, so the records are those of any context.
  induction history with
  | done => exact ⟨nofun, fun _ _ => nofun⟩
  | @act node action sites before middle after events ran rest ih =>
      cases keyed with
      | act here later =>
          obtain ⟨members, records⟩ := ih later
          refine ⟨List.forall_mem_append.2 ⟨fun member inside => ?_, members⟩, records⟩
          have writes := action.writes_added ran member inside
          refine ⟨writes.complete here, ?_⟩
          rintro declaration rfl
          exact writes.2.elim
  | skipped _ _ ih =>
      cases keyed with
      | skipped later => exact ih later
  | unnamed _ _ _ ih ih' =>
      cases keyed with
      | unnamed inside later =>
          obtain ⟨members, records⟩ := ih' later
          exact ⟨members, fun known context =>
            List.forall_mem_append.2 ⟨(ih inside).2 _ _, records known context⟩⟩
  | @declared isModule node name inside sites before opened inner after heading found events ran
      same lies _ _ ih ih' =>
      cases keyed with
      | declared inside later =>
          obtain ⟨members, records⟩ := ih' later
          have written := (quiet_openingOf isModule node before _ opened ran).1.2
          have declared : Declaration.Complete ⟨heading, membersOf found⟩ :=
            complete_declaration (Heading.Written.complete written) (ih inside).1
          refine ⟨List.forall_mem_cons.2 ⟨⟨trivial, ?_⟩, members⟩, fun known context =>
            List.forall_mem_append.2 ⟨?_, records known context⟩⟩
          · rintro _ ⟨⟩
            exact declared
          · exact forall_records_declared declared ((ih inside).2 _ _)

/-- Every location of a declaration, a member or a type parameter that is published, from a
signature, a list of overloads, a list of type parameters or any tree of a Ruby file, has all
required parts of its shape, and each optional part is known to be there or not. -/
theorem published_complete (buffer : Buffer) :
    (∀ declarations, readSignature buffer = .ok declarations →
      ∀ declaration ∈ declarations, declaration.Complete) ∧
    (∀ range scope types, readOverloads buffer range scope = .ok types →
      ∀ type ∈ types, type.Complete) ∧
    (∀ range scope params, readGenerics buffer range scope = .ok params →
      ∀ param ∈ params, param.Complete) ∧
    ∀ root options result, extract buffer root options = .ok result →
      ∀ record ∈ result.records, record.declaration.Complete := by
  refine ⟨fun _ => complete_readSignature, fun _ _ _ => complete_readOverloads,
    fun _ _ _ => complete_readGenerics, fun root options result extracted => ?_⟩
  obtain ⟨events, after, -, history, records_eq, -⟩ := exists_history extracted
  rw [records_eq]
  exact (history.complete (keyed_sitesAmong _ false root.kind root.children)).2 _ _

/-- A class that goes on to the end of the file. -/
def unfinishedText : String :=
  "# @rbs generic T\nclass A\n#: [U] (U) -> T\ndef f\nattr_reader :x #: T\ninclude M"

/-- Its tree, in which neither the class nor the method has a keyword and nothing has an `end`. -/
def unfinishedTree : Node :=
  .mk ⟨"program", true, none, ⟨0, 76⟩, 0, 5⟩
    [.mk ⟨"comment", true, none, ⟨0, 16⟩, 0, 0⟩ [],
     .mk ⟨"class", true, none, ⟨17, 76⟩, 1, 5⟩
       [.mk ⟨"constant", true, some "name", ⟨23, 24⟩, 1, 1⟩ [],
        .mk ⟨"comment", true, none, ⟨25, 40⟩, 2, 2⟩ [],
        .mk ⟨"body_statement", true, some "body", ⟨41, 76⟩, 3, 5⟩
          [.mk ⟨"method", true, none, ⟨41, 46⟩, 3, 3⟩
             [.mk ⟨"identifier", true, some "name", ⟨45, 46⟩, 3, 3⟩ []],
           .mk ⟨"call", true, none, ⟨47, 61⟩, 4, 4⟩
             [.mk ⟨"identifier", true, some "method", ⟨47, 58⟩, 4, 4⟩ [],
              .mk ⟨"argument_list", true, some "arguments", ⟨59, 61⟩, 4, 4⟩
                [.mk ⟨"simple_symbol", true, none, ⟨59, 61⟩, 4, 4⟩ []]],
           .mk ⟨"comment", true, none, ⟨62, 66⟩, 4, 4⟩ [],
           .mk ⟨"call", true, none, ⟨67, 76⟩, 5, 5⟩
             [.mk ⟨"identifier", true, some "method", ⟨67, 74⟩, 5, 5⟩ [],
              .mk ⟨"argument_list", true, some "arguments", ⟨75, 76⟩, 5, 5⟩
                [.mk ⟨"constant", true, none, ⟨75, 76⟩, 5, 5⟩ []]]]]]

/-- What is read from a signature and parts of it and from the unfinished class is complete. -/
theorem published_complete_unfinished :
    ∃ declarations types params result,
      readSignature layered = .ok declarations ∧ declarations.length = 2 ∧
      readOverloads layered ⟨35, 60⟩ ["T"] = .ok types ∧ types.length = 2 ∧
      readGenerics layered ⟨8, 13⟩ [] = .ok params ∧ params.length = 1 ∧
      extract (.ofString "a.rb" unfinishedText) unfinishedTree {} = .ok result ∧
      result.records.map (·.declaration.members.map (·.location.range)) =
        [[⟨41, 46⟩, ⟨47, 61⟩, ⟨67, 76⟩]] ∧
      (∀ declaration ∈ declarations, declaration.Complete) ∧ (∀ type ∈ types, type.Complete) ∧
      (∀ param ∈ params, param.Complete) ∧
      ∀ record ∈ result.records, record.declaration.Complete := by
  have signature : ∃ declarations, readSignature layered = .ok declarations ∧
      declarations.length = 2 := by decide +kernel
  have overloads : ∃ types, readOverloads layered ⟨35, 60⟩ ["T"] = .ok types ∧
      types.length = 2 := by decide +kernel
  have generics : ∃ params, readGenerics layered ⟨8, 13⟩ [] = .ok params ∧ params.length = 1 := by
    decide +kernel
  have extracted : ∃ result,
      extract (.ofString "a.rb" unfinishedText) unfinishedTree {} = .ok result ∧
      result.records.map (·.declaration.members.map (·.location.range)) =
        [[⟨41, 46⟩, ⟨47, 61⟩, ⟨67, 76⟩]] := by decide +kernel
  obtain ⟨declarations, read, two⟩ := signature
  obtain ⟨types, listed, both⟩ := overloads
  obtain ⟨params, given, one⟩ := generics
  obtain ⟨result, made, ranges⟩ := extracted
  obtain ⟨document, lists, single, -⟩ := published_complete layered
  obtain ⟨-, -, -, file⟩ := published_complete (.ofString "a.rb" unfinishedText)
  exact ⟨declarations, types, params, result, read, two, listed, both, given, one, made, ranges,
    document declarations read, lists _ _ types listed, single _ _ params given,
    file unfinishedTree {} result made⟩

end Signet.Inline
