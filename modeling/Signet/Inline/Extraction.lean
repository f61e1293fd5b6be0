import Signet.Inline.Nesting
import Signet.Inline.Overloads

/-! # Extraction

One walk over the tree of a Ruby file turns classes, modules, methods and a few well-known calls
into declarations. What cannot be expressed is reported and left out.

The walk recurses on the tree. Everything that is done at a single node, without going into it, is a
step of its own; the walk itself only decides where to go on.
-/

namespace Signet.Inline

open Text Ruby

/-- What can be chosen for an extraction. -/
structure Options where
  maxDiagnostics : Option Nat := none
  trailingAssertions : Bool := true

/-- The file that is read, with its comments. -/
structure RubyFile where
  buffer : Buffer
  comments : CommentIndex
  options : Options := {}

variable (file : RubyFile)

/-! ## Small steps -/

/-- Reports a diagnostic. -/
def report (diagnostic : Diagnostic) : Step Unit :=
  modify fun progress => progress.report file.options.maxDiagnostics diagnostic

/-- Reports annotations without effect. -/
def reportIgnored (ignored : List Ignored) : Step Unit :=
  ignored.forM fun item => report file (.unused item.reason item.location)

/-- A location that must exist, or the extraction stops. -/
def located {α : Type} (result : Except LocationError α) : Step α :=
  match result with
  | .ok value => pure value
  | .error error => throw (.location error)

/-- The location of a node. -/
def locate (node : Node) : Step (Location .plain) :=
  located (Location.ofRange file.buffer (node.range file.buffer))

/-- Reports a problem with a node. -/
def reportAt (node : Node) (problem : Problem) : Step Unit := do
  report file (.about problem (← locate file node))

/-- Reports that a node is not a constant. -/
def reportNonConstant (node : Node) (problem : String → Problem) : Step Unit := do
  let location ← locate file node
  report file (.about (problem (String.ofList location.source)) location)

/-- The comments above a node. What cannot be read in them is reported. -/
def leadingOf (node : Node) (scope : List String) : Step LeadingBlock := do
  let comments := file.comments.leadingBlock node.head.startRow
  let block ← located (readLeading file.buffer scope comments)
  block.diagnostics.forM (report file)
  return block

/-- The comment after the end of a node. -/
def trailingComment? (node : Node) : Option CommentLine :=
  file.comments.trailing? node.head.stopRow node.bytes.stop

/-- The type that a comment after a node on a single row gives. -/
def assertionOf (node : Node) (scope : List String) : Step (Option TypeAnnotation) := do
  if !file.options.trailingAssertions || node.head.startRow ≠ node.head.stopRow then return none
  match trailingComment? file node with
  | none => return none
  | some comment =>
    match ← located (readTrailing file.buffer scope comment) with
    | .absent => return none
    | .assertion note => return some note
    | .invalid diagnostic =>
      report file diagnostic
      return none

/-- Types and the range in which they are written. -/
structure WrittenArgs where
  args : List Ty
  range : Range

/-- The type arguments that a comment after a node gives, in brackets right after the marker. -/
def trailingArgs (node : Node) (scope : List String) : Step (Option WrittenArgs) := do
  match trailingComment? file node with
  | none => return none
  | some comment =>
    if ¬ ['#', '['].isPrefixOf (comment.text file.buffer) then return none
    let whole := comment.range file.buffer
    let range : Range := ⟨whole.start + 1, whole.stop⟩
    let location ← located (Location.ofRange file.buffer range)
    let type ← located (readPayload file.buffer [range] location fun payload all =>
      readType payload all scope)
    match type with
    | .ok ⟨.tuple args⟩ => return some ⟨args, range⟩
    | .ok _ => return none
    | .error diagnostic =>
      report file diagnostic
      return none

/-! ## Headings -/

/-- The range of a keyword of a node; the start of the node if it is missing. -/
def keywordRange (node : Node) (keyword : String) : Range :=
  match node.token? keyword with
  | some token => token.range file.buffer
  | none => .point (node.range file.buffer).start

/-- The range of the `end` of a node; the end of the node if it is missing. -/
def endRange (node : Node) : Range :=
  match node.token? "end" with
  | some token => token.range file.buffer
  | none => .point (node.range file.buffer).stop

/-- The ranges of the annotations of generics. -/
def genericRanges (block : LeadingBlock) : List Range :=
  block.annotations.filterMap fun
    | .generic _ location => some location.range
    | _ => none

/-- From the first to the last annotation of generics. -/
def genericsRange (block : LeadingBlock) : Option Range :=
  match (genericRanges block).head?, (genericRanges block).getLast? with
  | some first, some last => some (first.through last)
  | _, _ => none

/-- The type parameters of a class or a module. Annotations that do not apply to one are
reported. -/
def genericsOf (block : LeadingBlock) : Step (List TypeParam) := do
  block.annotations.forM fun
    | .generic .. | .skip _ => pure ()
    | other => report file (.unused .notOnDeclaration other.location)
  return block.annotations.filterMap fun
    | .generic param _ => some param
    | _ => none

/-- The superclass of a class node, and the range of the mark before it. -/
def superclassOf (node : Node) (scope : List String) :
    Step (Option Range × Option Reference) := do
  match node.child? "superclass" with
  | none => return (none, none)
  | some clause =>
    let mark := (clause.token? "<").map (·.range file.buffer)
    match clause.namedChildren with
    | [] => return (mark, none)
    | expression :: _ =>
      match expression.constantPath? file.buffer with
      | none =>
        reportNonConstant file expression .nonConstantSuperclassName
        return (mark, none)
      | some name =>
        let args ← trailingArgs file clause scope
        let location ← locate file expression
        return (mark, some { name, args := (args.map (·.args)).getD [], location })

/-- What only a class has, and its location. -/
def classForm (node name : Node) (block : LeadingBlock) (typeParams : List TypeParam) :
    Step Form := do
  let (mark, superclass) ← superclassOf file node (TypeParam.names typeParams)
  let location ← located do
    let location ← Location.ofRange file.buffer (node.range file.buffer)
    let location ← location.withRequired .keyword (keywordRange file node "class")
    let location ← location.withRequired .name (name.range file.buffer)
    let location ← location.withRequired .finish (endRange file node)
    let location ← location.withOptional .lt mark
    location.withOptional .typeParams (genericsRange block)
  return .ofClass superclass location

/-- What only a module has, and its location. Ruby code names no self types. -/
def moduleForm (node name : Node) (block : LeadingBlock) : Step Form := do
  let location ← located do
    let location ← Location.ofRange file.buffer (node.range file.buffer)
    let location ← location.withRequired .keyword (keywordRange file node "module")
    let location ← location.withRequired .name (name.range file.buffer)
    let location ← location.withRequired .finish (endRange file node)
    let location ← location.withOptional .typeParams (genericsRange block)
    let location ← location.withOptional .colon none
    location.withOptional .selfTypes none
  return .ofModule [] location

/-- What becomes of a class or module node. -/
inductive Opening where
  | headless
  | skipped
  | unnamed
  | declared (heading : Heading)

/-- The problem with the name of a class or a module. -/
def nameProblem (isModule : Bool) : String → Problem :=
  if isModule then .nonConstantModuleName else .nonConstantClassName

/-- Reads the head of a class or module node. -/
def openingOf (isModule : Bool) (node : Node) : Step Opening := do
  match node.child? "name" with
  | none => return .headless
  | some nameNode =>
    let block ← leadingOf file node []
    if block.isSkipped then return .skipped
    match nameNode.constantPath? file.buffer with
    | none =>
      reportNonConstant file nameNode (nameProblem isModule)
      return .unnamed
    | some name =>
      let typeParams ← genericsOf file block
      let form ← if isModule then moduleForm file node nameNode block
        else classForm file node nameNode block typeParams
      return .declared { name, typeParams, comment := block.doc, form }

/-- Runs the body of a declaration and hands the declaration over. -/
def declare (heading : Heading) (body : Step Unit) : Step Unit := do
  let outer := (← get).context
  let slot ← modifyGet fun progress =>
    let (progress, slot) := progress.reserve
    (slot, progress)
  let frame : OpenDeclaration :=
    { outer, declaration := ⟨heading, []⟩, scope := TypeParam.names heading.typeParams, slot }
  match ← within (.known frame) (outer.enter (outer.qualify heading.name)) body with
  | .known frame => modify (·.finish frame)
  | .unknown => pure ()

/-- Runs the body of a module without a declaration. -/
def passThrough (body : Step Unit) : Step Unit := do
  let outer := (← get).context
  discard (within .unknown outer.enterUnknown body)

/-! ## Members -/

/-- A visibility that is written before a definition, and where. -/
structure Modifier where
  visibility : Visibility
  range : Option Range

/-- Who answers a method, unless that cannot be told. -/
def methodKind? (node : Node) : Option MethodKind :=
  if node.kind = "singleton_method" then
    if ((node.child? "object").map (·.string file.buffer)) = some "self" then some .ofSingleton
    else none
  else some .ofInstance

/-- The range of what stands before the name of a singleton method. -/
def methodKindRange (kind : MethodKind) (node name : Node) : Option Range :=
  match kind with
  | .ofInstance => none
  | _ => (node.child? "object").map fun object =>
    ⟨(object.range file.buffer).start, (name.range file.buffer).start⟩

/-- The location of a method. -/
def methodLocation (kind : MethodKind) (node name : Node) (modifier : Option Modifier) :
    Except LocationError (Location .method) := do
  let location ← Location.ofRange file.buffer (node.range file.buffer)
  let location ← location.withRequired .keyword (keywordRange file node "def")
  let location ← location.withRequired .name (name.range file.buffer)
  let location ← location.withOptional .kind (methodKindRange file kind node name)
  let location ← location.withOptional .overloading none
  location.withOptional .visibility (modifier.bind (·.range))

/-- The visibility of a method: the modifier before it, or the section, which covers instance
methods only. -/
def methodVisibility (kind : MethodKind) (frame : OpenDeclaration) (modifier : Option Modifier) :
    Option Visibility :=
  (modifier.map (·.visibility)).or (if kind = .ofInstance then frame.visibility else none)

/-- Settles the overloads of a method and reports the annotations that have no effect. -/
def settleOverloads (annotations : List Annotation) (trailing : Option TypeAnnotation)
    (overriding : Bool) (params : List RubyParam) : Step (List MethodType) :=
  match decideOverloads annotations trailing overriding params with
  | .error error => throw error
  | .ok decision => do
    reportIgnored file decision.ignored
    return decision.overloads

/-- Reads a method of a declaration in progress. -/
def readMember (frame : OpenDeclaration) (kind : MethodKind) (node name : Node)
    (modifier : Option Modifier) : Step Unit := do
  let block ← leadingOf file node frame.scope
  if block.isSkipped then return
  let trailing ← assertionOf file node frame.scope
  let overloads ← settleOverloads file block.annotations trailing block.isOverride
    (rubyParams file.buffer node)
  let location ← located (methodLocation file kind node name modifier)
  modify (·.addMember (.method {
    name := name.string file.buffer
    kind
    overloads
    overloading := block.isOverride
    visibility := methodVisibility kind frame modifier
    comment := block.doc
    location }))

/-- A method definition. Outside of every class and module it is reported; in a module whose name
cannot be told it is passed over. -/
def visitMethod (node : Node) (modifier : Option Modifier) : Step Unit := do
  match node.child? "name" with
  | none => return
  | some name =>
    match (← get).stack with
    | [] => reportAt file node (.topLevelMethod (name.string file.buffer))
    | .unknown :: _ => return
    | .known frame :: _ =>
      match methodKind? file node with
      | none => reportAt file node (.notImplemented .foreignSingletonMethod)
      | some kind => readMember file frame kind node name modifier

/-- One module of a mixin. -/
def visitMixinArgument (node : Node) (kind : MixinKind) (args : Option WrittenArgs)
    (argument : Node) : Step Unit := do
  match argument.constantPath? file.buffer with
  | none => reportAt file argument (.notImplemented (.mixinOfExpression kind))
  | some name =>
    let location ← located do
      let location ← Location.ofRange file.buffer (node.range file.buffer)
      let location ← location.withRequired .name (argument.range file.buffer)
      location.withOptional .args (args.map (·.range))
    modify (·.addMember (.mixin { kind, name, args := (args.map (·.args)).getD [], location }))

/-- A call that mixes in modules. Type arguments may follow if there is a single one. -/
def visitMixin (node : Node) (kind : MixinKind) : Step Unit := do
  let arguments := node.namedChildrenOf "arguments"
  let args ← match arguments with
    | [_] => trailingArgs file node (← get).scope
    | _ => pure none
  arguments.forM (visitMixinArgument file node kind args)

/-- One attribute of a call that defines attributes. -/
def visitAttributeArgument (node : Node) (kind : AttributeKind)
    (assertion : Option TypeAnnotation) (argument : Node) : Step Unit := do
  match argument.literalName? file.buffer with
  | none => reportAt file argument (.notImplemented .computedAttributeName)
  | some name =>
    let location ← located do
      let location ← Location.ofRange file.buffer (node.range file.buffer)
      let location ← location.withRequired .name (argument.range file.buffer)
      let location ← location.withOptional .type (assertion.map (·.location.range))
      match node.child? "method" with
      | some keyword => location.withRequired .keyword (keyword.range file.buffer)
      | none => return location
    let type := (assertion.map (·.type)).getD .untyped
    modify (·.addMember (.attr { kind, name, type, location }))

/-- A call that defines attributes. Their type is in a trailing comment. -/
def visitAttribute (node : Node) (kind : AttributeKind) : Step Unit := do
  let scope := (← get).scope
  let block ← leadingOf file node scope
  if block.isSkipped then return
  block.annotations.forM fun note =>
    report file (.unused .leadingOnAttribute note.location)
  let assertion ← assertionOf file node scope
  (node.namedChildrenOf "arguments").forM (visitAttributeArgument file node kind assertion)

/-! ## Calls and sections -/

/-- The visibility of a word. -/
def visibility? : String → Option Visibility
  | "private" => some .privately
  | "public" => some .publicly
  | _ => none

/-- What a call does. -/
inductive CallKind where
  | mixin (kind : MixinKind)
  | attr (kind : AttributeKind)
  | modifier (visibility : Visibility)
  | other

/-- What a call by a name does. -/
def CallKind.ofName (name : String) : CallKind :=
  match MixinKind.ofKeyword? name, AttributeKind.ofKeyword? name, visibility? name with
  | some kind, _, _ => .mixin kind
  | _, some kind, _ => .attr kind
  | _, _, some visibility => .modifier visibility
  | _, _, _ => .other

/-- What a call node does at a place. Only calls without receiver in a declaration in progress do
something. -/
def callKind (progress : Progress) (node : Node) : CallKind :=
  match node.child? "receiver", progress.current?, node.child? "method" with
  | none, some _, some method => .ofName (method.string file.buffer)
  | _, _, _ => .other

/-- The nodes that hold the statements of a body. -/
def bodyKinds : List String := ["body_statement", "class", "module"]

/-- A word by itself. `private` and `public` as statements of a body open a section. -/
def visitIdentifier (parentKind : String) (node : Node) : Step Unit := do
  match visibility? (node.string file.buffer) with
  | some visibility =>
    if bodyKinds.contains parentKind then modify (·.openSection visibility)
  | none => return

/-! ## The walk -/

/-- The fields of a class or module node that are not part of its body. -/
def headerFields : List String := ["name", "superclass"]

/-- Visits a class or a module, given how to visit all of its children and how to visit its
body. -/
def visitModule (isModule : Bool) (node : Node) (all body : Step Unit) : Step Unit := do
  match ← openingOf file isModule node with
  | .headless => all
  | .skipped => return
  | .unnamed => passThrough body
  | .declared heading => declare heading body

mutual

/-- Visits a node below a node of some kind. -/
def visit (parentKind : String) : Node → Step Unit
  | ⟨head, children⟩ => do
    match head.construct with
    | .classDefinition =>
      visitModule file false ⟨head, children⟩ (visitAll head.kind children)
        (visitBody head.kind headerFields children)
    | .moduleDefinition =>
      visitModule file true ⟨head, children⟩ (visitAll head.kind children)
        (visitBody head.kind headerFields children)
    | .singletonClass => reportAt file ⟨head, children⟩ (.notImplemented .singletonClass)
    | .method | .singletonMethod => visitMethod file ⟨head, children⟩ none
    | .call =>
      match callKind file (← get) ⟨head, children⟩ with
      | .mixin kind => visitMixin file ⟨head, children⟩ kind
      | .attr kind => visitAttribute file ⟨head, children⟩ kind
      | .modifier visibility =>
        let keyword := Node.child? ⟨head, children⟩ "method"
        visitArguments ⟨visibility, keyword.map (·.range file.buffer)⟩ children
      | .other => visitAll head.kind children
    | .identifier => visitIdentifier file parentKind ⟨head, children⟩
    | .other => visitAll head.kind children

/-- Visits the named ones of some nodes. -/
def visitAll (parentKind : String) : List Node → Step Unit
  | [] => return
  | ⟨head, children⟩ :: nodes => do
    if head.named then visit parentKind ⟨head, children⟩
    visitAll parentKind nodes

/-- Visits the named ones of some nodes, but for the first one in each header field. -/
def visitBody (parentKind : String) (header : List String) : List Node → Step Unit
  | [] => return
  | ⟨head, children⟩ :: nodes => do
    match head.field.filter header.contains with
    | some field => visitBody parentKind (header.erase field) nodes
    | none =>
      if head.named then visit parentKind ⟨head, children⟩
      visitBody parentKind header nodes

/-- Visits the arguments of a call that sets a visibility: the children of the first node that holds
arguments. -/
def visitArguments (modifier : Modifier) : List Node → Step Unit
  | [] => return
  | ⟨head, children⟩ :: nodes =>
    if head.field = some "arguments" then visitModified modifier head.kind children
    else visitArguments modifier nodes

/-- Visits the named ones of some arguments. The visibility covers definitions among them. -/
def visitModified (modifier : Modifier) (parentKind : String) : List Node → Step Unit
  | [] => return
  | ⟨head, children⟩ :: nodes => do
    if head.named then
      match head.construct with
      | .method | .singletonMethod => visitMethod file ⟨head, children⟩ (some modifier)
      | _ => visit parentKind ⟨head, children⟩
    visitModified modifier parentKind nodes

end

end Signet.Inline
