import Signet.Inline.Annotation
import Signet.Ruby.Name

/-! # Parameters of Ruby methods

A method without explicit types gets one from its parameter list. Each parameter takes the type that
an annotation gives it by name, once; what has no annotation is not checked.
-/

namespace Signet.Inline

open Ruby

/-- A parameter as Ruby writes it. -/
inductive RubyParam where
  | plain (name : String)
  | destructured
  | optional (name : Option String)
  | splat (name : Option String)
  | keyword (name : Option String) (hasDefault : Bool)
  | doubleSplat (name : Option String)
  | block (name : Option String)
  | forward
  | other

/-- The parameter that a node stands for. -/
def RubyParam.ofNode (buffer : Buffer) (node : Node) : RubyParam :=
  let name := (node.child? "name").map (·.string buffer)
  match node.kind with
  | "identifier" => .plain (node.string buffer)
  | "destructured_parameter" => .destructured
  | "optional_parameter" => .optional name
  | "splat_parameter" => .splat name
  | "keyword_parameter" => .keyword name (node.child? "value").isSome
  | "hash_splat_parameter" => .doubleSplat name
  | "block_parameter" => .block name
  | "forward_parameter" => .forward
  | _ => .other

/-- Annotations of parameters by name, in order. -/
abbrev ParamAnnotations := List (String × TypeAnnotation)

/-- The type that the first annotation of a name gives, and the annotations without it. -/
def takeType (annotations : ParamAnnotations) (name : String) : Ty × ParamAnnotations :=
  match annotations.find? fun note => note.1 = name with
  | some note =>
    (note.2.type, annotations.eraseP fun note => note.1 = name)
  | none => (.untyped, annotations)

/-- A method type in progress, and the annotations that are not used yet. -/
structure Draft where
  params : Params Ty := {}
  block : Option (Block Ty) := none
  forwarded : Bool := false
  unused : ParamAnnotations

namespace Draft

/-- Takes the type of a name. -/
def take (draft : Draft) (name : String) : Ty × Draft :=
  let (type, unused) := takeType draft.unused name
  (type, { draft with unused })

/-- Takes the type of a parameter that may have no name. -/
def takeParam (draft : Draft) (name : Option String) : Param Ty × Draft :=
  match name with
  | some name =>
    let (type, draft) := draft.take name
    (⟨type, some name⟩, draft)
  | none => (⟨.untyped, none⟩, draft)

/-- The block that a block parameter of a type takes. -/
def blockOf (type : Ty) : Block Ty :=
  match type with
  | ⟨.proc function _⟩ => ⟨function, false⟩
  | _ => ⟨Ty.untypedFunction, false⟩

/-- Adds a parameter. A plain one after an optional or a splat parameter is trailing. -/
def add (draft : Draft) : RubyParam → Draft
  | .plain name =>
    let (type, draft) := draft.take name
    { draft with params := draft.params.addRequired ⟨type, some name⟩ }
  | .destructured =>
    { draft with
      params := { draft.params with required := draft.params.required ++ [⟨.untyped, none⟩] } }
  | .optional (some name) =>
    let (type, draft) := draft.take name
    { draft with
      params := { draft.params with optional := draft.params.optional ++ [⟨type, some name⟩] } }
  | .splat name =>
    let (param, draft) := draft.takeParam name
    { draft with params := { draft.params with rest := some param } }
  | .keyword (some name) hasDefault =>
    let (type, draft) := draft.take name
    let keyword : Keyword Ty := ⟨name, ⟨type, none⟩⟩
    let params := draft.params
    { draft with
      params := if hasDefault then
          { params with optionalKeywords := keyword.insert params.optionalKeywords }
        else { params with requiredKeywords := keyword.insert params.requiredKeywords } }
  | .doubleSplat name =>
    let (param, draft) := draft.takeParam name
    { draft with params := { draft.params with restKeywords := some param } }
  | .block name =>
    let (param, draft) := draft.takeParam name
    { draft with block := some (blockOf param.type) }
  | .forward => { draft with forwarded := true }
  | .optional none | .keyword none _ | .other => draft

/-- The function of a draft. A method that forwards its arguments is not checked. -/
def function (draft : Draft) (result : Ty) : Function Ty :=
  if draft.forwarded then .untyped result else .typed draft.params result

/-- The method type of a draft. -/
def methodType (draft : Draft) (result : Ty) : MethodType :=
  { function := draft.function result, block := draft.block }

/-- The draft of a parameter list. -/
def ofParams (annotations : ParamAnnotations) (params : List RubyParam) : Draft :=
  params.foldl add { unused := annotations }

end Draft

/-- The parameters of a method node. -/
def rubyParams (buffer : Buffer) (node : Node) : List RubyParam :=
  (node.namedChildrenOf "parameters").map (RubyParam.ofNode buffer)

end Signet.Inline
