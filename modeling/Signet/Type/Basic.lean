import Signet.Type.Layer

/-! # Types

A type is a layer whose open places hold types. Everything that is computed from a type by looking
at one layer at a time is a `fold`: the value of a type is a function of its layer once the types
in the layer have been replaced by their values (`fold_mk`). The fold recurses on the structure of
the type; its companions do the same for each container that a layer uses, and `foldLayer_eq_map`
says that together they are `Layer.map`.
-/

namespace Signet

/-- A type of the signature language. -/
inductive Ty where
  | mk (layer : Layer Ty)

namespace Ty

variable {α : Type}

/-- The outermost layer. -/
def layer : Ty → Layer Ty
  | ⟨layer⟩ => layer

/-! ## Folding -/

mutual

/-- The value of a type, given the value of a layer of values. -/
def fold (f : Layer α → α) : Ty → α
  | ⟨layer⟩ => f (foldLayer f layer)

/-- The layer of the values of the types in a layer. -/
def foldLayer (f : Layer α → α) : Layer Ty → Layer α
  | .base keyword => .base keyword
  | .var name => .var name
  | .named kind name args => .named kind name (foldList f args)
  | .literal value => .literal value
  | .optional type => .optional (fold f type)
  | .union types => .union (foldList f types)
  | .intersection types => .intersection (foldList f types)
  | .tuple types => .tuple (foldList f types)
  | .proc function block => .proc (foldFunction f function) (foldBlock f block)

/-- The values of a list of types. -/
def foldList (f : Layer α → α) : List Ty → List α
  | [] => []
  | type :: types => fold f type :: foldList f types

/-- The value of a function. -/
def foldFunction (f : Layer α → α) : Function Ty → Function α
  | .typed params result => .typed (foldParams f params) (fold f result)
  | .untyped result => .untyped (fold f result)

/-- The value of a block. -/
def foldBlock (f : Layer α → α) : Option (Block Ty) → Option (Block α)
  | none => none
  | some ⟨function, required⟩ => some ⟨foldFunction f function, required⟩

/-- The values of a parameter list. -/
def foldParams (f : Layer α → α) : Params Ty → Params α
  | ⟨required, optional, rest, trailing, requiredKeywords, optionalKeywords, restKeywords⟩ =>
    ⟨foldParamList f required, foldParamList f optional, foldParamOption f rest,
      foldParamList f trailing, foldKeywordList f requiredKeywords,
      foldKeywordList f optionalKeywords, foldParamOption f restKeywords⟩

/-- The value of a parameter. -/
def foldParam (f : Layer α → α) : Param Ty → Param α
  | ⟨type, name⟩ => ⟨fold f type, name⟩

/-- The values of the parameters of one role. -/
def foldParamList (f : Layer α → α) : List (Param Ty) → List (Param α)
  | [] => []
  | param :: params => foldParam f param :: foldParamList f params

/-- The value of a rest parameter. -/
def foldParamOption (f : Layer α → α) : Option (Param Ty) → Option (Param α)
  | none => none
  | some param => some (foldParam f param)

/-- The value of a keyword parameter. -/
def foldKeyword (f : Layer α → α) : Keyword Ty → Keyword α
  | ⟨key, param⟩ => ⟨key, foldParam f param⟩

/-- The values of keyword parameters. -/
def foldKeywordList (f : Layer α → α) : List (Keyword Ty) → List (Keyword α)
  | [] => []
  | keyword :: keywords => foldKeyword f keyword :: foldKeywordList f keywords

end

section Companions

variable (f : Layer α → α)

theorem foldList_eq_map (types : List Ty) : foldList f types = types.map (fold f) := by
  induction types with
  | nil => rfl
  | cons type types ih => simp [foldList, ih]

theorem foldParam_eq_map (param : Param Ty) : foldParam f param = param.map (fold f) := by
  cases param; rfl

theorem foldParamList_eq_map (params : List (Param Ty)) :
    foldParamList f params = params.map (Param.map (fold f)) := by
  induction params with
  | nil => rfl
  | cons param params ih => simp [foldParamList, ih, foldParam_eq_map]

theorem foldParamOption_eq_map (param : Option (Param Ty)) :
    foldParamOption f param = param.map (Param.map (fold f)) := by
  cases param <;> simp [foldParamOption, foldParam_eq_map]

theorem foldKeyword_eq_map (keyword : Keyword Ty) :
    foldKeyword f keyword = keyword.map (fold f) := by
  cases keyword; simp [foldKeyword, Keyword.map, foldParam_eq_map]

theorem foldKeywordList_eq_map (keywords : List (Keyword Ty)) :
    foldKeywordList f keywords = keywords.map (Keyword.map (fold f)) := by
  induction keywords with
  | nil => rfl
  | cons keyword keywords ih => simp [foldKeywordList, ih, foldKeyword_eq_map]

theorem foldParams_eq_map (params : Params Ty) :
    foldParams f params = params.map (fold f) := by
  cases params
  simp [foldParams, Params.map, foldParamList_eq_map, foldParamOption_eq_map,
    foldKeywordList_eq_map]

theorem foldFunction_eq_map (function : Function Ty) :
    foldFunction f function = function.map (fold f) := by
  cases function <;> simp [foldFunction, Function.map, foldParams_eq_map]

theorem foldBlock_eq_map (block : Option (Block Ty)) :
    foldBlock f block = block.map (Block.map (fold f)) := by
  cases block <;> simp [foldBlock, Block.map, foldFunction_eq_map]

theorem foldLayer_eq_map (layer : Layer Ty) : foldLayer f layer = layer.map (fold f) := by
  cases layer <;>
    simp [foldLayer, Layer.map, foldList_eq_map, foldFunction_eq_map, foldBlock_eq_map]

/-- The value of a type is that of its layer, filled with the values of its types. -/
theorem fold_mk (layer : Layer Ty) : fold f ⟨layer⟩ = f (layer.map (fold f)) := by
  rw [fold, foldLayer_eq_map]

end Companions

/-! ## Types by name -/

/-- The type that is not checked. -/
def untyped : Ty := ⟨.base .untyped⟩

/-- An instance of a class without arguments. -/
def classInstance (name : String) : Ty := ⟨.named .ofClass (.ofString name) []⟩

/-- The function that takes anything and returns anything. -/
def untypedFunction : Function Ty := .untyped untyped

/-! ## Sameness -/

/-- Two types say the same: they are equal but for the order in which keyword parameters are
listed. -/
def same : Ty → Ty → Bool :=
  fold fun layer other => layer.all₂ (fun test part => test part) other.layer

/-- Two optional types are both missing or say the same. -/
def sameOption : Option Ty → Option Ty → Bool := optionAll₂ same

end Ty

end Signet
