import Signet.Proofs.Inline.History
import Signet.Proofs.Inline.Spelling
import Signet.Proofs.Reading.Binding

/-!
# Scopes in Ruby files

The types in the comments of a class or a module are read in its own type parameters, those of
modules around it left out. So the uses of an extracted declaration are bound by its own type
parameters (`Use.Bound`), and this is kept on every way from a comment to a member: through the
annotations of a block, the overloads that they decide, and the signature drafted from a parameter
list. In a signature document a declaration also sees the type parameters further out, and what it
uses is bound by its own exactly if it does not refer to one of those (`variables_bound`).
-/

namespace Signet

/-- The type is settled in the type parameters of the class or the module right around it and of
its overload. -/
def Use.Bound (use : Use) : Prop := use.type.Settled use.own

/-- All that a declaration uses is bound, at any depth. -/
def Declaration.Bound (declaration : Declaration) : Prop :=
  ∀ use ∈ declaration.uses [], use.Bound

/-- What a member uses is bound in a class or a module with these type parameters, whatever is
around it. -/
def Member.Bound (own : List String) (member : Member) : Prop :=
  ∀ outer, ∀ use ∈ usesAmong outer own [member], use.Bound

/-- So is what a superclass or self types use. -/
def Form.Bound (own : List String) (form : Form) : Prop :=
  ∀ outer, ∀ use ∈ form.uses outer own, use.Bound

/-! ## Parameter lists -/

theorem Param.forall_concat {post : Ty → Prop} {param : Param Ty} (here : post param.type)
    {params : List (Param Ty)} (others : ∀ other ∈ params, post other.type) :
    ∀ other ∈ params ++ [param], post other.type :=
  List.forall_mem_append.2 ⟨others, List.forall_mem_singleton.2 here⟩

/-- Putting a parameter into a list of keyword parameters. -/
theorem Keyword.forall_insert {post : Ty → Prop} {keyword : Keyword Ty}
    (here : post keyword.param.type) {keywords : List (Keyword Ty)}
    (others : ∀ other ∈ keywords, post other.param.type) :
    ∀ other ∈ keyword.insert keywords, post other.param.type := by
  induction keywords with
  | nil => exact List.forall_mem_singleton.2 here
  | cons first keywords ih =>
      obtain ⟨head, later⟩ := List.forall_mem_cons.1 others
      rw [Keyword.insert]
      split
      · exact List.forall_mem_cons.2 ⟨here, later⟩
      · exact List.forall_mem_cons.2 ⟨head, ih later⟩

/-- Each type of a parameter list has a property, role by role. -/
structure Params.Forall (post : Ty → Prop) (params : Params Ty) : Prop where
  required : ∀ param ∈ params.required, post param.type
  optional : ∀ param ∈ params.optional, post param.type
  rest : ∀ param, params.rest = some param → post param.type
  trailing : ∀ param ∈ params.trailing, post param.type
  requiredKeywords : ∀ keyword ∈ params.requiredKeywords, post keyword.param.type
  optionalKeywords : ∀ keyword ∈ params.optionalKeywords, post keyword.param.type
  restKeywords : ∀ param, params.restKeywords = some param → post param.type

namespace Params.Forall

variable {post : Ty → Prop} {params : Params Ty}

theorem empty : Forall post {} := ⟨nofun, nofun, nofun, nofun, nofun, nofun, nofun⟩

theorem addRequired (all : params.Forall post) {param : Param Ty} (here : post param.type) :
    (params.addRequired param).Forall post := by
  unfold Params.addRequired
  split
  · exact { all with required := Param.forall_concat here all.required }
  · exact { all with trailing := Param.forall_concat here all.trailing }

theorem parts (all : params.Forall post) : ∀ type ∈ params.parts, post type := by
  intro type member
  simp only [Params.parts, positionals, keywords, List.map_append, List.mem_append, List.mem_map,
    Option.mem_toList] at member
  rcases member with ((((h | h) | h) | h) | h | h) | h <;> obtain ⟨_, inside, rfl⟩ := h
  · exact all.required _ inside
  · exact all.optional _ inside
  · exact all.rest _ inside
  · exact all.trailing _ inside
  · exact all.requiredKeywords _ inside
  · exact all.optionalKeywords _ inside
  · exact all.restKeywords _ inside

end Params.Forall

namespace Inline

open Text Ruby

variable {file : RubyFile} {node : Node} {scope : List String} {buffer : Buffer} {range : Range}

/-! ## Annotations -/

/-- What an annotation says about types is settled. The bounds of type parameters do not count. -/
def Annotation.Settled (scope : List String) : Annotation → Prop
  | .result note | .param _ note => note.type.Settled scope
  | .overloads types _ | .colon types _ => ∀ type ∈ types, type.Settled scope
  | .skip _ | .override _ | .generic .. => True

theorem Annotation.Spelled.settled {item : Annotation} (spelled : item.Spelled scope) :
    item.Settled scope := by
  cases item with
  | result note =>
      obtain ⟨text, read⟩ := spelled
      exact settled_readType read
  | param name note =>
      obtain ⟨text, read⟩ := spelled
      exact settled_readType read
  | overloads types location =>
      obtain ⟨text, read⟩ := spelled
      exact settled_readOverloads read
  | colon types location =>
      obtain ⟨text, read⟩ := spelled
      exact settled_readOverloads read
  | generic | skip | override => trivial

theorem settled_readLeading {comments : List CommentLine} {block : LeadingBlock}
    (read : readLeading buffer scope comments = .ok block) :
    ∀ annotation ∈ block.annotations, annotation.Settled scope :=
  fun annotation member => (spelled_readLeading read annotation member).settled

theorem settled_readTrailing {comment : CommentLine} {note : TypeAnnotation}
    (read : readTrailing buffer scope comment = .ok (.assertion note)) :
    note.type.Settled scope := by
  obtain ⟨text, read⟩ := spelled_readTrailing read
  exact settled_readType read

theorem settled_of_areWritten {args : List Ty} (written : AreWritten file scope args) :
    ∀ arg ∈ args, arg.Settled scope := by
  obtain ⟨ranges, location, found⟩ := written
  obtain ⟨payload, means⟩ := exists_of_readPayload found
  exact (Ty.settled_mk.1 (settled_readType means)).2.2

/-! ## Drafts -/

/-- The types that are drafted so far and those of the annotations that are left are settled. -/
structure Draft.Settled (scope : List String) (draft : Draft) : Prop where
  params : draft.params.Forall (Ty.Settled scope)
  block : ∀ block, draft.block = some block → block.function.Settled scope
  unused : ∀ note ∈ draft.unused, note.2.type.Settled scope

namespace Draft

variable {draft : Draft}

theorem Settled.take (settled : draft.Settled scope) (name : String) :
    (draft.take name).1.Settled scope ∧ (draft.take name).2.Settled scope := by
  unfold Draft.take takeType
  split
  rename_i type unused taken
  split at taken
  · rename_i note found
    obtain ⟨rfl, rfl⟩ := Prod.mk.inj taken
    have here := settled.unused note (List.mem_of_find?_eq_some found)
    refine ⟨here, settled.params, settled.block, fun other member => ?_⟩
    exact settled.unused other (List.mem_of_mem_eraseP member)
  · obtain ⟨rfl, rfl⟩ := Prod.mk.inj taken
    exact ⟨Ty.settled_untyped, settled⟩

theorem Settled.takeParam (settled : draft.Settled scope) (name : Option String) :
    (draft.takeParam name).1.type.Settled scope ∧ (draft.takeParam name).2.Settled scope := by
  cases name with
  | none => exact ⟨Ty.settled_untyped, settled⟩
  | some name => exact settled.take name

theorem settled_blockOf {type : Ty} (settled : type.Settled scope) :
    (blockOf type).function.Settled scope := by
  unfold blockOf
  split
  · rename_i function block
    exact fun part member => (Ty.settled_mk.1 settled).2.2 part (List.mem_append_left _ member)
  · exact List.forall_mem_singleton.2 Ty.settled_untyped

/-- Adding a parameter keeps a draft settled. -/
theorem Settled.add (settled : draft.Settled scope) (param : RubyParam) :
    (draft.add param).Settled scope := by
  cases param with
  | plain name =>
      obtain ⟨here, params, block, unused⟩ := settled.take name
      exact ⟨params.addRequired here, block, unused⟩
  | destructured =>
      obtain ⟨params, block, unused⟩ := settled
      exact ⟨{ params with required := Param.forall_concat Ty.settled_untyped params.required },
        block, unused⟩
  | optional name =>
      cases name with
      | none => exact settled
      | some name =>
          obtain ⟨here, params, block, unused⟩ := settled.take name
          exact ⟨{ params with optional := Param.forall_concat here params.optional }, block,
            unused⟩
  | splat name =>
      obtain ⟨here, params, block, unused⟩ := settled.takeParam name
      exact ⟨{ params with rest := fun _ same => Option.some.inj same ▸ here }, block, unused⟩
  | keyword name hasDefault =>
      cases name with
      | none => exact settled
      | some name =>
          obtain ⟨here, params, block, unused⟩ := settled.take name
          refine ⟨?_, block, unused⟩
          cases hasDefault with
          | true =>
              exact { params with
                optionalKeywords := Keyword.forall_insert here params.optionalKeywords }
          | false =>
              exact { params with
                requiredKeywords := Keyword.forall_insert here params.requiredKeywords }
  | doubleSplat name =>
      obtain ⟨here, params, block, unused⟩ := settled.takeParam name
      exact ⟨{ params with restKeywords := fun _ same => Option.some.inj same ▸ here }, block,
        unused⟩
  | block name =>
      obtain ⟨here, params, block, unused⟩ := settled.takeParam name
      exact ⟨params, fun _ same => Option.some.inj same ▸ settled_blockOf here, unused⟩
  | forward => exact ⟨settled.1, settled.2, settled.3⟩
  | other => exact settled

theorem settled_ofParams {annotations : ParamAnnotations} (params : List RubyParam)
    (settled : ∀ note ∈ annotations, note.2.type.Settled scope) :
    (ofParams annotations params).Settled scope := by
  unfold ofParams
  have start : Draft.Settled scope { unused := annotations } := ⟨.empty, nofun, settled⟩
  generalize ({ unused := annotations } : Draft) = draft at start
  induction params generalizing draft with
  | nil => exact start
  | cons param params ih => exact ih _ (start.add param)

/-- The method type of a draft has no type parameters of its own. -/
theorem Settled.methodType (settled : draft.Settled scope) {result : Ty}
    (returned : result.Settled scope) : (draft.methodType result).Settled scope := by
  show Ty.Settled (scope ++ []) _
  rw [List.append_nil]
  refine Ty.settled_proc ?_ settled.block
  show (draft.function result).Settled scope
  unfold Draft.function
  split
  · exact List.forall_mem_singleton.2 returned
  · exact List.forall_mem_append.2 ⟨settled.params.parts, List.forall_mem_singleton.2 returned⟩

end Draft

/-! ## Overloads -/

theorem settled_untypedMethod : MethodType.untyped.Settled scope :=
  Ty.settled_proc (List.forall_mem_singleton.2 Ty.settled_untyped) nofun

variable {annotations : List Annotation} {trailing : Option TypeAnnotation}
  {params : List RubyParam} {decision : Decision}

theorem settled_decideByParts
    (decided : decideByParts (.ofAnnotations annotations) trailing params = .ok decision)
    (settled : ∀ annotation ∈ annotations, annotation.Settled scope)
    (after : ∀ note, trailing = some note → note.type.Settled scope) :
    ∀ type ∈ decision.overloads, type.Settled scope := by
  have among := Sorted.among_ofAnnotations annotations
  -- a type behind the method is taken as it is or not at all
  have usable : ∀ note, (usableTrailing (.ofAnnotations annotations) trailing).1 = some note →
      note.type.Settled scope := by
    intro note same
    unfold usableTrailing at same
    split at same
    · cases same
    · exact after note same
  obtain ⟨result, combined, decided⟩ := bind_eq_ok_iff.1 decided
  have returned : ∀ note, result = some note → note.type.Settled scope := by
    intro note same
    unfold combineResults at combined
    split at combined
    · cases combined
    · obtain rfl := Except.ok.inj combined
      rcases Option.or_eq_some_iff.1 same with leading | ⟨-, late⟩
      · exact settled _ (among.result note leading)
      · exact usable note late
  split at decided
  · obtain rfl := Except.ok.inj decided
    exact List.forall_mem_singleton.2 settled_untypedMethod
  · obtain rfl := Except.ok.inj decided
    have draft := Draft.settled_ofParams params fun note used =>
      settled _ (among.params note used)
    refine List.forall_mem_singleton.2 (draft.methodType ?_)
    cases result with
    | none => exact Ty.settled_untyped
    | some note => exact returned note rfl

/-- Overloads that are decided by settled annotations are settled. -/
theorem settled_decideOverloads {overriding : Bool}
    (decided : decideOverloads annotations trailing overriding params = .ok decision)
    (settled : ∀ annotation ∈ annotations, annotation.Settled scope)
    (after : ∀ note, trailing = some note → note.type.Settled scope) :
    ∀ type ∈ decision.overloads, type.Settled scope := by
  unfold decideOverloads at decided
  dsimp only at decided
  split at decided
  · obtain rfl := Except.ok.inj decided
    exact List.forall_mem_nil _
  · split at decided
    · obtain rfl := Except.ok.inj decided
      intro type member
      obtain ⟨types, location, inside, annotated | annotated⟩ :=
        exists_annotation_of_decideExplicit (Sorted.among_ofAnnotations _) trailing type member
      · exact settled _ annotated type inside
      · exact settled _ annotated type inside
    · exact settled_decideByParts decided settled after

/-! ## Members -/

theorem bound_overloads {types : List MethodType} (settled : ∀ type ∈ types, type.Settled scope)
    (outer : List String) : ∀ use ∈ types.map (MethodType.use outer scope), use.Bound :=
  List.forall_mem_map.2 settled

theorem settled_of_areDecided {types : List MethodType}
    (decided : AreDecided file scope node types) : ∀ type ∈ types, type.Settled scope := by
  obtain ⟨block, trailing, decision, read, after, decided, rfl⟩ := decided
  refine settled_decideOverloads decided (settled_readLeading read) fun note same => ?_
  obtain ⟨comment, read⟩ := after note same
  exact settled_readTrailing read

theorem settled_args {args : List Ty} (written : args = [] ∨ AreWritten file scope args) :
    ∀ arg ∈ args, arg.Settled scope := by
  rcases written with rfl | written
  · exact List.forall_mem_nil _
  · exact settled_of_areWritten written

/-- What a member uses is bound in the scope in which it is written. -/
theorem Member.Written.bound {member : Member} (written : Member.Written file scope node member) :
    member.Bound scope := by
  intro outer use inside
  cases member with
  | method definition =>
      have settled := bound_overloads (settled_of_areDecided written.1) outer
      exact settled use (by simpa [usesAmong] using inside)
  | mixin inclusion =>
      simp only [usesAmong, List.append_nil, List.mem_map] at inside
      obtain ⟨arg, used, rfl⟩ := inside
      exact settled_args written.1 arg used
  | attr accessor =>
      -- an attribute is untyped or has the type that was read behind it
      obtain rfl := List.mem_singleton.1 inside
      show Ty.Settled scope accessor.type
      rcases written.1 with untyped | ⟨comment, note, read, same⟩
      · rw [untyped]
        exact Ty.settled_untyped
      · rw [same]
        exact settled_readTrailing read
  | nested declaration => exact written.elim

/-- What a superclass uses is bound in the scope in which it is written. -/
theorem Form.Written.bound {isModule : Bool} {form : Form}
    (written : Form.Written file node isModule scope form) : form.Bound scope := by
  intro outer use inside
  cases form with
  | ofClass superclass location =>
      obtain ⟨-, -, args⟩ := written
      obtain ⟨reference, found, inside⟩ := List.mem_flatMap.1 inside
      obtain ⟨arg, used, rfl⟩ := List.mem_map.1 inside
      exact settled_args (args reference (Option.mem_toList.1 found)) arg used
  | ofModule selfTypes location =>
      obtain ⟨-, -, rfl⟩ := written
      exact nomatch inside

variable {before middle after opened inner : Progress} {heading : Heading}

theorem bound_added {action : Action}
    (ran : (action.perform file node).run before = (.ok (), after)) :
    ∀ member ∈ Progress.added before after, member.Bound before.scope :=
  fun member inside => Member.Written.bound (action.writes_added ran member inside).2

/-! ## Declarations -/

/-- What is gained leaves the scope at the place as it is. -/
theorem scope_eq_of_gains {gain : Gain} (gains : before.Gains gain after) :
    after.scope = before.scope := by
  unfold Progress.scope Progress.current?
  rw [gains.stack_eq]
  cases before.stack with
  | nil => rfl
  | cons frame outer => cases frame <;> rfl

theorem usesAmong_append (outer own : List String) (members more : List Member) :
    usesAmong outer own (members ++ more) =
      usesAmong outer own members ++ usesAmong outer own more := by
  induction members with
  | nil => rfl
  | cons member members ih => cases member <;> simp [usesAmong, ih]

/-- What a declaration uses is bound if this holds of its heading and of its members. -/
theorem bound_declaration {members : List Member}
    (form : heading.form.Bound (TypeParam.names heading.typeParams))
    (bound : ∀ member ∈ members, member.Bound (TypeParam.names heading.typeParams))
    (outer : List String) :
    ∀ use ∈ Declaration.uses outer ⟨heading, members⟩, use.Bound := by
  refine List.forall_mem_append.2 ⟨form outer, ?_⟩
  -- the members are read in the scope of the whole heading, however many of them are left
  clear form
  induction members with
  | nil => exact nofun
  | cons member members ih =>
      obtain ⟨here, later⟩ := List.forall_mem_cons.1 bound
      rw [← List.singleton_append, usesAmong_append]
      exact List.forall_mem_append.2 ⟨here outer, ih later⟩

/-- The members and the results that are recorded have only bound uses. -/
theorem History.bound {sites : List Site} {events : List Event}
    (history : History file sites before events after) :
    (∀ member ∈ membersOf events, member.Bound before.scope) ∧
      ∀ record ∈ recordsOf before.isKnown before.context events, record.declaration.Bound := by
  -- The scope and the context are the same before each event of one level: what is visited inside
  -- a declaration changes only the top of the stack, which is put back.
  induction history with
  | done => exact ⟨nofun, nofun⟩
  | @act node action sites before middle after events ran rest ih =>
      obtain ⟨members, -, gains⟩ := action.gains ran
      rw [scope_eq_of_gains gains, gains.isKnown_eq, gains.context_eq] at ih
      exact ⟨List.forall_mem_append.2 ⟨bound_added ran, ih.1⟩, ih.2⟩
  | @skipped isModule node sites before middle after events ran rest ih =>
      have quiet := gains_opening ran
      rw [scope_eq_of_gains quiet, quiet.isKnown_eq, quiet.context_eq] at ih
      exact ih
  | @unnamed isModule node inside sites before opened inner after found events ran history _ ih
      ih' =>
      have quiet := gains_opening ran
      have here := (History.unnamed ran history .done).gains
      rw [scope_eq_of_gains here, here.isKnown_eq, here.context_eq] at ih'
      refine ⟨ih'.1, List.forall_mem_append.2 ⟨?_, ih'.2⟩⟩
      rw [← quiet.context_eq]
      exact ih.2
  | @declared isModule node name inside sites before opened inner after heading found events ran
      same lies history _ ih ih' =>
      have quiet := gains_opening ran
      have here := (History.declared ran same lies history .done).gains
      rw [scope_eq_of_gains here, here.isKnown_eq, here.context_eq] at ih'
      have written : Heading.Written file node isModule heading :=
        (quiet_openingOf isModule node before _ opened ran).1.2
      -- the members inside are bound in the type parameters of the heading alone
      have declared := bound_declaration (Form.Written.bound written.form) ih.1
      refine ⟨List.forall_mem_cons.2 ⟨fun outer => ?_, ih'.1⟩, List.forall_mem_append.2 ⟨?_, ih'.2⟩⟩
      · simpa [usesAmong] using declared (outer ++ before.scope)
      · refine forall_records_declared (declared []) ?_
        rw [← quiet.context_eq]
        exact ih.2

/-- What the declarations of a Ruby file use is bound. What those of a signature document use is
bound exactly if nothing refers to a type parameter further out that is not also a type parameter
of its own class, module or overload. And exactly then a text that is read as a type means the same
in the type parameters further out and its own as in its own alone. -/
theorem variables_bound (buffer : Buffer) :
    (∀ root options result, extract buffer root options = .ok result →
      ∀ record ∈ result.records, record.declaration.Bound) ∧
    (∀ declarations, readSignature buffer = .ok declarations →
      ((∀ declaration ∈ declarations, declaration.Bound) ↔
        ∀ declaration ∈ declarations, ∀ use ∈ declaration.uses [], ∀ name ∈ use.type.vars,
          name ∈ use.outer → name ∈ use.own)) ∧
    ∀ outer own type, readType buffer buffer.all (outer ++ own) = .ok type →
      (readType buffer buffer.all own = .ok type ↔
        ∀ name ∈ type.vars, name ∈ outer → name ∈ own) := by
  refine ⟨?_, ?_, fun outer own type read => readType_right_iff read⟩
  · intro root options result extracted
    obtain ⟨events, after, -, history, records_eq, -⟩ := exists_history extracted
    rw [records_eq]
    exact history.bound.2
  · intro declarations read
    have settled := settled_readSignature read
    refine forall₂_congr fun declaration member => forall₂_congr fun use inside => ?_
    exact (settled declaration member use inside).right_iff

/-- A class inside another one, each with a type parameter, and an attribute with a type of both. -/
def pairText : String :=
  "# @rbs generic T\nclass A\n# @rbs generic U\nclass B\nattr_reader :x #: [T, U]\nend\nend\n"

/-- Its tree. -/
def pairTree : Node :=
  .mk ⟨"program", true, none, ⟨0, 83⟩, 0, 7⟩
    [.mk ⟨"comment", true, none, ⟨0, 16⟩, 0, 0⟩ [],
     .mk ⟨"class", true, none, ⟨17, 82⟩, 1, 6⟩
       [.mk ⟨"class", false, none, ⟨17, 22⟩, 1, 1⟩ [],
        .mk ⟨"constant", true, some "name", ⟨23, 24⟩, 1, 1⟩ [],
        .mk ⟨"comment", true, none, ⟨25, 41⟩, 2, 2⟩ [],
        .mk ⟨"body_statement", true, some "body", ⟨42, 78⟩, 3, 5⟩
          [.mk ⟨"class", true, none, ⟨42, 78⟩, 3, 5⟩
             [.mk ⟨"class", false, none, ⟨42, 47⟩, 3, 3⟩ [],
              .mk ⟨"constant", true, some "name", ⟨48, 49⟩, 3, 3⟩ [],
              .mk ⟨"body_statement", true, some "body", ⟨50, 64⟩, 4, 4⟩
                [.mk ⟨"call", true, none, ⟨50, 64⟩, 4, 4⟩
                   [.mk ⟨"identifier", true, some "method", ⟨50, 61⟩, 4, 4⟩ [],
                    .mk ⟨"argument_list", true, some "arguments", ⟨62, 64⟩, 4, 4⟩
                      [.mk ⟨"simple_symbol", true, none, ⟨62, 64⟩, 4, 4⟩ []]]],
              .mk ⟨"comment", true, none, ⟨65, 74⟩, 4, 4⟩ [],
              .mk ⟨"end", false, none, ⟨75, 78⟩, 5, 5⟩ []]],
        .mk ⟨"end", false, none, ⟨79, 82⟩, 6, 6⟩ []]]

/-- What declarations use: the type parameters further out, those of their own, and the variables
that occur. -/
def usedNames (declarations : List Declaration) : List (List String × List String × List String) :=
  (declarations.flatMap (Declaration.uses [])).map fun use => (use.outer, use.own, use.type.vars)

theorem forall_mem_usedNames {post : List String × List String × List String → Prop}
    {declarations : List Declaration} : (∀ names ∈ usedNames declarations, post names) ↔
      ∀ declaration ∈ declarations, ∀ use ∈ declaration.uses [],
        post (use.outer, use.own, use.type.vars) := by
  rw [usedNames, List.forall_mem_map]
  simp only [List.mem_flatMap]
  exact ⟨fun all declaration member use inside => all use ⟨declaration, member, inside⟩,
    fun all use ⟨declaration, member, inside⟩ => all declaration member use inside⟩

/-- In a Ruby file the type parameter of the outer class is no variable in the inner one. In a
signature document it is none either if the inner class has one of the same name, and then the type
is the same for the inner class alone. -/
theorem variables_bound_pair :
    (∃ result, extract (.ofString "a.rb" pairText) pairTree {} = .ok result ∧
      usedNames (result.records.map (·.declaration)) = [(["T"], ["U"], ["U"])] ∧
      ∀ record ∈ result.records, record.declaration.Bound) ∧
    (∃ declarations, readSignature (.ofString "a.rbs"
        "class A[T]\nclass B[T]\nattr_reader x: [T, U]\nend\nend\n") = .ok declarations ∧
      usedNames declarations = [(["T"], ["T"], ["T"])] ∧
      ∀ declaration ∈ declarations, declaration.Bound) ∧
    ∃ type, readType (.ofString "a.rbs" "[T, U]") ⟨0, 6⟩ ["T", "T"] = .ok type ∧
      type.vars = ["T"] ∧ readType (.ofString "a.rbs" "[T, U]") ⟨0, 6⟩ ["T"] = .ok type := by
  have extractedNames : (extract (.ofString "a.rb" pairText) pairTree {}).toOption.map
      (fun result => usedNames (result.records.map (·.declaration))) =
        some [(["T"], ["U"], ["U"])] := by
    decide +kernel
  have readNames : (readSignature (.ofString "a.rbs"
      "class A[T]\nclass B[T]\nattr_reader x: [T, U]\nend\nend\n")).toOption.map usedNames =
        some [(["T"], ["T"], ["T"])] := by
    decide +kernel
  have inFiles := (variables_bound (.ofString "a.rb" pairText)).1
  have inDocuments := (variables_bound (.ofString "a.rbs"
    "class A[T]\nclass B[T]\nattr_reader x: [T, U]\nend\nend\n")).2.1
  have typeNames : (readType (.ofString "a.rbs" "[T, U]") ⟨0, 6⟩ ["T", "T"]).toOption.map Ty.vars =
      some ["T"] := by
    decide +kernel
  have inTexts := (variables_bound (.ofString "a.rbs" "[T, U]")).2.2 ["T"] ["T"]
  refine ⟨?_, ?_, ?_⟩
  · obtain ⟨result, extracted, names⟩ := exists_of_toOption_map extractedNames
    exact ⟨result, extracted, names, inFiles _ _ _ extracted⟩
  · obtain ⟨declarations, read, names⟩ := exists_of_toOption_map readNames
    have inner : ∀ names ∈ usedNames declarations, ∀ name ∈ names.2.2,
        name ∈ names.1 → name ∈ names.2.1 := by
      rw [names]
      decide
    exact ⟨declarations, read, names, (inDocuments _ read).2 (forall_mem_usedNames.1 inner)⟩
  · obtain ⟨type, read, vars⟩ := exists_of_toOption_map typeNames
    exact ⟨type, read, vars, (inTexts type read).2 (by simp [vars])⟩

/-- Of the same type in the same place of a signature document the type parameter of the outer class
is a variable, although the inner class does not have it. -/
theorem readSignature_unbound_pair :
    ∃ declarations, readSignature (.ofString "a.rbs"
        "class A[T]\nclass B[U]\nattr_reader x: [T, U]\nend\nend\n") = .ok declarations ∧
      usedNames declarations = [(["T"], ["U"], ["T", "U"])] ∧
      ¬ ∀ declaration ∈ declarations, declaration.Bound := by
  have names : (readSignature (.ofString "a.rbs"
      "class A[T]\nclass B[U]\nattr_reader x: [T, U]\nend\nend\n")).toOption.map usedNames =
        some [(["T"], ["U"], ["T", "U"])] := by
    decide +kernel
  obtain ⟨declarations, read, names⟩ := exists_of_toOption_map names
  refine ⟨declarations, read, names, fun bound => ?_⟩
  have inOwn : ∀ names ∈ usedNames declarations, ∀ name ∈ names.2.2, name ∈ names.2.1 :=
    forall_mem_usedNames.2 fun declaration member use inside =>
      (bound declaration member use inside).vars_mem
  rw [names] at inOwn
  exact absurd inOwn (by decide)

end Inline

end Signet
