import Signet.Name

/-! # One layer of a type

A type is built in layers: a layer is a constructor of the type language with the types it is
applied to left open. This module holds the layers and the functions on parameters, functions and
blocks that do not care what the open places hold. `Layer.map` fills the open places anew, `parts`
lists them from left to right, `all₂` compares two layers place by place.
-/

namespace Signet

/-- The keyword types. -/
inductive BaseType where
  | bool
  | boolish
  | void
  | untyped
  | nil
  | top
  | bottom
  | selfType
  | instanceType
  | classType
deriving DecidableEq, Repr

namespace BaseType

/-- The keyword of a base type. -/
def keyword : BaseType → String
  | bool => "bool"
  | boolish => "boolish"
  | void => "void"
  | untyped => "untyped"
  | nil => "nil"
  | top => "top"
  | bottom => "bot"
  | selfType => "self"
  | instanceType => "instance"
  | classType => "class"

/-- Every base type. -/
def all : List BaseType :=
  [bool, boolish, void, untyped, nil, top, bottom, selfType, instanceType, classType]

/-- The base type of a keyword. -/
def ofKeyword? (text : String) : Option BaseType := all.find? fun base => base.keyword = text

theorem ofKeyword?_keyword (base : BaseType) : ofKeyword? base.keyword = some base := by
  cases base <;> decide

end BaseType

/-- A type with a single value. -/
inductive Literal where
  | symbol (name : String)
  | string (text : String)
  | integer (value : Int)
  | bool (value : Bool)
deriving DecidableEq, Repr

/-! ## Parameters, functions, blocks -/

/-- A parameter: a type and perhaps a name. -/
structure Param (τ : Type) where
  type : τ
  name : Option String := none
deriving DecidableEq, Repr

/-- A keyword parameter. -/
structure Keyword (τ : Type) where
  key : String
  param : Param τ
deriving DecidableEq, Repr

/-- A parameter list, by the role of each parameter. Trailing parameters are the required ones
after an optional or a rest parameter. -/
structure Params (τ : Type) where
  required : List (Param τ) := []
  optional : List (Param τ) := []
  rest : Option (Param τ) := none
  trailing : List (Param τ) := []
  requiredKeywords : List (Keyword τ) := []
  optionalKeywords : List (Keyword τ) := []
  restKeywords : Option (Param τ) := none
deriving DecidableEq, Repr

/-- A function: its parameters are checked, or they are not. -/
inductive Function (τ : Type) where
  | typed (params : Params τ) (result : τ)
  | untyped (result : τ)
deriving DecidableEq, Repr

/-- The block that a method or a proc takes. -/
structure Block (τ : Type) where
  function : Function τ
  required : Bool
deriving DecidableEq, Repr

/-- One layer of a type. -/
inductive Layer (τ : Type) where
  | base (keyword : BaseType)
  | var (name : String)
  | named (kind : NameKind) (name : TypeName) (args : List τ)
  | literal (value : Literal)
  | optional (type : τ)
  | union (types : List τ)
  | intersection (types : List τ)
  | tuple (types : List τ)
  | proc (function : Function τ) (block : Option (Block τ))
deriving DecidableEq, Repr

variable {τ σ : Type}

/-! ## Filling the open places anew -/

/-- The parameter with another type. -/
def Param.map (f : τ → σ) (param : Param τ) : Param σ := ⟨f param.type, param.name⟩

/-- The keyword parameter with another type. -/
def Keyword.map (f : τ → σ) (keyword : Keyword τ) : Keyword σ :=
  ⟨keyword.key, keyword.param.map f⟩

/-- The parameter list with other types, role by role. -/
def Params.map (f : τ → σ) (params : Params τ) : Params σ where
  required := params.required.map (Param.map f)
  optional := params.optional.map (Param.map f)
  rest := params.rest.map (Param.map f)
  trailing := params.trailing.map (Param.map f)
  requiredKeywords := params.requiredKeywords.map (Keyword.map f)
  optionalKeywords := params.optionalKeywords.map (Keyword.map f)
  restKeywords := params.restKeywords.map (Param.map f)

/-- The function with other types. -/
def Function.map (f : τ → σ) : Function τ → Function σ
  | .typed params result => .typed (params.map f) (f result)
  | .untyped result => .untyped (f result)

/-- The block with other types. -/
def Block.map (f : τ → σ) (block : Block τ) : Block σ := ⟨block.function.map f, block.required⟩

/-- The layer with other types in its open places. -/
def Layer.map (f : τ → σ) : Layer τ → Layer σ
  | .base keyword => .base keyword
  | .var name => .var name
  | .named kind name args => .named kind name (args.map f)
  | .literal value => .literal value
  | .optional type => .optional (f type)
  | .union types => .union (types.map f)
  | .intersection types => .intersection (types.map f)
  | .tuple types => .tuple (types.map f)
  | .proc function block => .proc (function.map f) (block.map (Block.map f))

/-! ## The open places in order -/

/-- The positional parameters in the order in which a call passes them. -/
def Params.positionals (params : Params τ) : List (Param τ) :=
  params.required ++ params.optional ++ params.rest.toList ++ params.trailing

/-- The keyword parameters, required ones first. -/
def Params.keywords (params : Params τ) : List (Keyword τ) :=
  params.requiredKeywords ++ params.optionalKeywords

/-- The types of a parameter list. -/
def Params.parts (params : Params τ) : List τ :=
  params.positionals.map (·.type) ++ params.keywords.map (·.param.type)
    ++ params.restKeywords.toList.map (·.type)

/-- The types of a function. -/
def Function.parts : Function τ → List τ
  | .typed params result => params.parts ++ [result]
  | .untyped result => [result]

/-- The types of a layer. -/
def Layer.parts : Layer τ → List τ
  | .base _ | .var _ | .literal _ => []
  | .named _ _ args => args
  | .optional type => [type]
  | .union types | .intersection types | .tuple types => types
  | .proc function block =>
    function.parts ++ (block.map fun block => block.function.parts).getD []

/-! ## Comparing two layers -/

/-- Two lists agree in length and place by place. -/
def listAll₂ (r : τ → σ → Bool) : List τ → List σ → Bool
  | [], [] => true
  | a :: as, b :: bs => r a b && listAll₂ r as bs
  | _, _ => false

/-- Two options are both empty or agree. -/
def optionAll₂ (r : τ → σ → Bool) : Option τ → Option σ → Bool
  | none, none => true
  | some a, some b => r a b
  | _, _ => false

/-- Two parameters agree. -/
def Param.all₂ (r : τ → σ → Bool) (a : Param τ) (b : Param σ) : Bool :=
  r a.type b.type && a.name = b.name

/-- Two keyword parameters agree. -/
def Keyword.all₂ (r : τ → σ → Bool) (a : Keyword τ) (b : Keyword σ) : Bool :=
  a.key = b.key && a.param.all₂ r b.param

/-- Two lists of keyword parameters agree, whatever their order. Keys do not repeat in either, so
comparing the lengths and finding each key suffices. -/
def keywordsAll₂ (r : τ → σ → Bool) (as : List (Keyword τ)) (bs : List (Keyword σ)) : Bool :=
  as.length = bs.length && as.all fun a => bs.any fun b => a.all₂ r b

/-- Two parameter lists agree, role by role. -/
def Params.all₂ (r : τ → σ → Bool) (a : Params τ) (b : Params σ) : Bool :=
  listAll₂ (Param.all₂ r) a.required b.required
    && listAll₂ (Param.all₂ r) a.optional b.optional
    && optionAll₂ (Param.all₂ r) a.rest b.rest
    && listAll₂ (Param.all₂ r) a.trailing b.trailing
    && keywordsAll₂ r a.requiredKeywords b.requiredKeywords
    && keywordsAll₂ r a.optionalKeywords b.optionalKeywords
    && optionAll₂ (Param.all₂ r) a.restKeywords b.restKeywords

/-- Two functions agree. -/
def Function.all₂ (r : τ → σ → Bool) : Function τ → Function σ → Bool
  | .typed params result, .typed params' result' => params.all₂ r params' && r result result'
  | .untyped result, .untyped result' => r result result'
  | _, _ => false

/-- Two blocks agree. -/
def Block.all₂ (r : τ → σ → Bool) (a : Block τ) (b : Block σ) : Bool :=
  a.function.all₂ r b.function && a.required = b.required

/-- Two layers have the same constructor and agree place by place. -/
def Layer.all₂ (r : τ → σ → Bool) : Layer τ → Layer σ → Bool
  | .base keyword, .base keyword' => keyword = keyword'
  | .var name, .var name' => name = name'
  | .named kind name args, .named kind' name' args' =>
    kind = kind' && name = name' && listAll₂ r args args'
  | .literal value, .literal value' => value = value'
  | .optional type, .optional type' => r type type'
  | .union types, .union types' => listAll₂ r types types'
  | .intersection types, .intersection types' => listAll₂ r types types'
  | .tuple types, .tuple types' => listAll₂ r types types'
  | .proc function block, .proc function' block' =>
    function.all₂ r function' && optionAll₂ (Block.all₂ r) block block'
  | _, _ => false

/-! ## Functions -/

namespace Params

/-- The list is empty in every role. -/
def isEmpty (params : Params τ) : Bool :=
  params.required.isEmpty && params.optional.isEmpty && params.rest.isNone
    && params.trailing.isEmpty && params.requiredKeywords.isEmpty
    && params.optionalKeywords.isEmpty && params.restKeywords.isNone

/-- Some keyword parameter has the key. -/
def hasKey (params : Params τ) (key : String) : Bool := params.keywords.any fun k => k.key = key

end Params

/-- A keyword parameter put into a list: one of the same key is replaced where it stands. -/
def Keyword.insert (keyword : Keyword τ) : List (Keyword τ) → List (Keyword τ)
  | [] => [keyword]
  | other :: keywords =>
    if other.key = keyword.key then keyword :: keywords else other :: keyword.insert keywords

namespace Function

/-- What the function returns. -/
def result : Function τ → τ
  | typed _ result => result
  | untyped result => result

/-- The parameters, if they are checked. -/
def params? : Function τ → Option (Params τ)
  | typed params _ => some params
  | untyped _ => none

/-- The function with another result. -/
def withResult (result : τ) : Function τ → Function τ
  | typed params _ => typed params result
  | untyped _ => untyped result

end Function

end Signet
