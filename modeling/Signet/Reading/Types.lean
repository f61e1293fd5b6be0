import Signet.Reading.Excerpt
import Signet.Type.Substitution

/-! # The meaning of types

A parse tree of a type rule means a type. Which names are variables depends on the type parameters
in scope. What a grammatical text may still get wrong is a number that does not fit, a parameter
out of order, and a key that is used twice.
-/

namespace Signet

open Grammar

/-! ## Literals -/

/-- The least and the greatest number of a literal: those of a signed word of 64 bits. -/
def integerBounds : Int × Int := (-9223372036854775808, 9223372036854775807)

/-- The value of decimal digits. -/
def digitsValue (digits : List Char) : Nat :=
  digits.foldl (fun value digit => 10 * value + (digit.toNat - '0'.toNat)) 0

/-- The number that a literal stands for; underscores do not count. -/
def integerValue (text : List Char) : Int :=
  match text.filter (· ≠ '_') with
  | '-' :: digits => -(digitsValue digits : Int)
  | digits => digitsValue digits

/-- Reads a whole number, unless it is out of bounds. -/
def readInteger (tree : ParseTree) : Except Fault Ty :=
  let value := integerValue tree.text
  if integerBounds.1 ≤ value && value ≤ integerBounds.2 then .ok ⟨.literal (.integer value)⟩
  else .error ⟨.invalidInteger tree.string, tree.range⟩

/-- The text between the first and the last character. -/
def unquoted (text : List Char) : String := String.ofList (text.drop 1).dropLast

/-- Reads a token that is a type by itself. -/
def readAtom (tree : ParseTree) : Except Fault Ty :=
  match tree.rule with
  | .baseType =>
    match BaseType.ofKeyword? tree.string with
    | some keyword => .ok ⟨.base keyword⟩
    | none => .error ⟨.malformed, tree.range⟩
  | .symbolLiteral =>
    .ok ⟨.literal (.symbol (String.ofList (tree.text.dropWhile (· = ':'))))⟩
  | .stringLiteral => .ok ⟨.literal (.string (unquoted tree.text))⟩
  | .integerLiteral => readInteger tree
  | .booleanLiteral => .ok ⟨.literal (.bool (tree.string = "true"))⟩
  | _ => .error ⟨.malformed, tree.range⟩

/-! ## Names -/

/-- The kind of name that a rule reads. -/
def nameKind? : Rule → Option NameKind
  | .classType => some .ofClass
  | .interfaceType => some .ofInterface
  | .aliasType => some .ofAlias
  | _ => none

/-- The type of an applied name. A bare class name in scope is a variable. -/
def applyName (scope : List String) (kind : NameKind) (name : TypeName) (args : List Ty) : Ty :=
  Ty.bindLayer scope (.named kind name args)

/-! ## Parameter lists -/

/-- The roles in which a parameter may be written. -/
inductive ParamRole where
  | required
  | optional
  | rest
  | keyword
  | restKeywords
deriving DecidableEq, Repr

/-- The role of a parameter rule. -/
def paramRole? : Rule → Option ParamRole
  | .requiredParam => some .required
  | .optionalParam => some .optional
  | .restParam => some .rest
  | .keywordParam => some .keyword
  | .restKeywordsParam => some .restKeywords
  | _ => none

namespace Params

variable {τ : Type}

/-- Some parameter is passed by keyword. -/
def hasKeywords (params : Params τ) : Bool :=
  !params.keywords.isEmpty || params.restKeywords.isSome

/-- A parameter in this role may follow the parameters so far. -/
def admits (params : Params τ) : ParamRole → Bool
  | .required => !params.hasKeywords
  | .optional => !params.hasKeywords && params.rest.isNone && params.trailing.isEmpty
  | .rest => !params.hasKeywords && params.rest.isNone
  | .keyword => params.restKeywords.isNone
  | .restKeywords => params.restKeywords.isNone

/-- Adds a required parameter: a trailing one if an optional or a rest parameter went before. -/
def addRequired (params : Params τ) (param : Param τ) : Params τ :=
  if params.optional.isEmpty && params.rest.isNone then
    { params with required := params.required ++ [param] }
  else { params with trailing := params.trailing ++ [param] }

/-- Adds a keyword parameter. -/
def addKeyword (params : Params τ) (optional : Bool) (keyword : Keyword τ) : Params τ :=
  if optional then { params with optionalKeywords := params.optionalKeywords ++ [keyword] }
  else { params with requiredKeywords := params.requiredKeywords ++ [keyword] }

end Params

/-- What is written of a parameter. -/
structure ParamParts where
  optional : Bool := false
  key : String := ""
  type : Ty := .untyped
  name : Option String := none

/-- Adds a parameter in its role. A key may be used once. -/
def Params.add (params : Params Ty) (role : ParamRole) (parts : ParamParts) :
    Except ParseCause (Params Ty) :=
  let param : Param Ty := ⟨parts.type, parts.name⟩
  match role with
  | .required => .ok (params.addRequired param)
  | .optional => .ok { params with optional := params.optional ++ [param] }
  | .rest => .ok { params with rest := some param }
  | .keyword =>
    if params.hasKey parts.key then .error (.duplicatedKeyword parts.key)
    else .ok (params.addKeyword parts.optional ⟨parts.key, param⟩)
  | .restKeywords => .ok { params with restKeywords := some param }

/-! ## Types -/

/-- What is written of a function: parameters, block and result. -/
structure SignatureParts where
  params : Params Ty := {}
  untyped : Bool := false
  block : Option (Block Ty) := none
  result : Ty := .untyped

namespace SignatureParts

/-- The function that is written. -/
def function (parts : SignatureParts) : Function Ty :=
  if parts.untyped then .untyped parts.result else .typed parts.params parts.result

end SignatureParts

/-- A type with as many optional marks as there are trees of such marks. -/
def markOptional (type : Ty) (marks : List ParseTree) : Ty :=
  marks.foldl (fun type _ => ⟨.optional type⟩) type

/-- Several members make a union or an intersection, a single one stands for itself. -/
def combine (whole : List Ty → Layer Ty) : List Ty → Ty
  | [type] => type
  | types => ⟨whole types⟩

mutual

/-- The type that a tree means. -/
def readTypeTree (scope : List String) : ParseTree → Except Fault Ty
  | ⟨rule, stretch, children⟩ =>
    match rule, children with
    | .typeExpr, child :: _ => readTypeTree scope child
    | .parenType, child :: _ => readTypeTree scope child
    | .unionType, children => return combine .union (← readTypeTrees scope children)
    | .intersectionType, children => return combine .intersection (← readTypeTrees scope children)
    | .optionalType, child :: marks => return markOptional (← readTypeTree scope child) marks
    | .tupleType, children => return ⟨.tuple (← readTypeTrees scope children)⟩
    | .procType, children => do
      let parts ← readSignatureTrees scope children
      return ⟨.proc parts.function parts.block⟩
    | rule, ⟨nameRule, name, nameChildren⟩ :: ⟨.typeArgs, _, args⟩ :: _ =>
      match nameKind? rule with
      | some kind => return applyName scope kind (.ofChars name.text) (← readTypeTrees scope args)
      | none => .error ⟨.malformed, (ParseTree.mk nameRule name nameChildren).range⟩
    | rule, ⟨_, name, _⟩ :: _ =>
      match nameKind? rule with
      | some kind => return applyName scope kind (.ofChars name.text) []
      | none => .error ⟨.malformed, (ParseTree.mk rule stretch children).range⟩
    | rule, [] => readAtom ⟨rule, stretch, []⟩

/-- The types that trees mean. -/
def readTypeTrees (scope : List String) : List ParseTree → Except Fault (List Ty)
  | [] => return []
  | tree :: trees => return (← readTypeTree scope tree) :: (← readTypeTrees scope trees)

/-- The parts of a function that trees mean. -/
def readSignatureTrees (scope : List String) : List ParseTree → Except Fault SignatureParts
  | [] => return {}
  | ⟨.params, _, params⟩ :: trees => do
    let params ← readParamTrees scope {} params
    return { ← readSignatureTrees scope trees with params }
  | ⟨.untypedParams, _, _⟩ :: trees =>
    return { ← readSignatureTrees scope trees with untyped := true }
  | ⟨.block, _, children⟩ :: trees => do
    let parts ← readSignatureTrees scope children
    let block := ⟨parts.function, !children.any fun tree => tree.rule = .optionalMark⟩
    return { ← readSignatureTrees scope trees with block := some block }
  | ⟨.optionalType, stretch, children⟩ :: trees => do
    let result ← readTypeTree scope ⟨.optionalType, stretch, children⟩
    return { ← readSignatureTrees scope trees with result }
  | _ :: trees => readSignatureTrees scope trees

/-- Reads parameters one after the other. Whether a parameter may stand where it does is decided
before it is read. -/
def readParamTrees (scope : List String) (params : Params Ty) :
    List ParseTree → Except Fault (Params Ty)
  | [] => return params
  | ⟨rule, stretch, children⟩ :: trees => do
    let tree : ParseTree := ⟨rule, stretch, children⟩
    match paramRole? rule with
    | none => throw ⟨.malformed, tree.range⟩
    | some role =>
      if !params.admits role then throw ⟨.parameterOrder, tree.range⟩
      let parts ← readParamParts scope children
      let params ← (params.add role parts).mapError fun cause => ⟨cause, tree.range⟩
      readParamTrees scope params trees

/-- The parts of a parameter that trees mean. -/
def readParamParts (scope : List String) : List ParseTree → Except Fault ParamParts
  | [] => return {}
  | ⟨.optionalMark, _, _⟩ :: trees =>
    return { ← readParamParts scope trees with optional := true }
  | ⟨.keywordName, key, _⟩ :: trees =>
    return { ← readParamParts scope trees with key := String.ofList key.text }
  | ⟨.typeExpr, stretch, children⟩ :: trees => do
    let type ← readTypeTree scope ⟨.typeExpr, stretch, children⟩
    return { ← readParamParts scope trees with type }
  | ⟨.varName, name, _⟩ :: trees =>
    return { ← readParamParts scope trees with name := some (String.ofList name.text) }
  | _ :: trees => readParamParts scope trees

end

end Signet
