import Signet.Proofs.Grammar.Names
import Signet.Proofs.Type.Print
import Signet.Proofs.Type.Same
import Signet.Type.Method

/-!
# Types that a text can say

Every type that is read is readable: its names are spelled in the way of their kinds, its unions
and intersections have members, its parameter lists could be written. On readable types three more
properties decide whether the printed text says the same type again: literals are written in a
syntax of their own, nested unions and intersections run together (`Layer.Flat`), and so does the
result of a function with what comes after it (`Layer.ResultsTight`).
-/

namespace Signet

variable {τ : Type}

/-! ## Parameter lists -/

/-- Every parameter of the list. -/
def Params.every (params : Params τ) : List (Param τ) :=
  params.positionals ++ params.keywords.map (·.param) ++ params.restKeywords.toList

/-- The list can be written: its names are spelled as names of parameters, its keys as keys, no key
is used twice, and trailing parameters come after an optional or a rest parameter. -/
structure Params.Regular (params : Params τ) : Prop where
  names : ∀ param ∈ params.every, ∀ name, param.name = some name → IsVarName name
  keys : ∀ keyword ∈ params.keywords, IsKey keyword.key
  nodup : (params.keywords.map (·.key)).Nodup
  trailing : params.trailing ≠ [] → params.optional ≠ [] ∨ params.rest.isSome = true

theorem Params.Regular.keyed {params : Params τ} (regular : params.Regular) : params.Keyed := by
  have nodup := regular.nodup
  rw [keywords, List.map_append] at nodup
  exact ⟨nodup.of_append_left, nodup.of_append_right⟩

/-- The types of the results of the functions in a layer. -/
def Layer.results : Layer τ → List τ
  | .proc function block => function.result :: (block.map fun block => block.function.result).toList
  | _ => []

/-! ## Layers -/

namespace Layer

/-- The layer can be read in a scope. -/
def Readable (scope : List String) : Layer Ty → Prop
  | .var name => name ∈ scope ∧ IsUpper name
  | .named kind name args => name.Spells kind ∧
      (kind = .ofClass → args = [] → name.isSimple = true → name.base ∉ scope)
  | .union types | .intersection types => 2 ≤ types.length
  | .proc function block => ∀ params ∈ (Layer.proc function block).paramLists, params.Regular
  | .base _ | .literal _ | .optional _ | .tuple _ => True

/-- The layer is not a literal. -/
def NotLiteral : Layer Ty → Prop
  | .literal _ => False
  | _ => True

/-- No member of a union is a union, and no member of an intersection is an intersection. -/
def Flat : Layer Ty → Prop
  | .union types => ∀ type ∈ types, type.tightness ≠ .union
  | .intersection types => ∀ type ∈ types, type.tightness ≠ .intersection
  | _ => True

/-- No function or block in the layer returns a union or an intersection. -/
def ResultsTight (layer : Layer Ty) : Prop :=
  ∀ type ∈ layer.results, type.tightness.isLoose = false

instance : DecidablePred NotLiteral
  | .literal _ => isFalse id
  | .base _ | .var _ | .named _ _ _ | .optional _ | .union _ | .intersection _ | .tuple _
  | .proc _ _ => isTrue trivial

instance : DecidablePred Flat
  | .union types => inferInstanceAs (Decidable (∀ type ∈ types, type.tightness ≠ .union))
  | .intersection types =>
    inferInstanceAs (Decidable (∀ type ∈ types, type.tightness ≠ .intersection))
  | .base _ | .var _ | .named _ _ _ | .literal _ | .optional _ | .tuple _ | .proc _ _ =>
    isTrue trivial

instance : DecidablePred ResultsTight := fun layer =>
  inferInstanceAs (Decidable (∀ type ∈ layer.results, type.tightness.isLoose = false))

end Layer

/-- No key is there twice in a type that can be read. -/
theorem Ty.keyed_of_readable {scope : List String} {type : Ty}
    (readable : type.Everywhere (Layer.Readable scope)) : type.Keyed := by
  refine readable.imp fun layer here params member => ?_
  cases layer with
  | proc function block => exact (here params member).keyed
  | _ => cases member

/-! ## Method types -/

/-- The types that a type parameter is bounded by or stands for. -/
def TypeParam.types (param : TypeParam) : List Ty :=
  param.upperBound.toList ++ param.default.toList

namespace MethodType

/-- The function and the block of a method as a type by itself. -/
def body (type : MethodType) : Ty := ⟨.proc type.function type.block⟩

/-- The types that a method type consists of. -/
def types (type : MethodType) : List Ty := type.body :: type.typeParams.flatMap TypeParam.types

/-- A property of layers holds everywhere in a method type. -/
def Everywhere (kept : Layer Ty → Prop) (type : MethodType) : Prop :=
  ∀ part ∈ type.types, part.Everywhere kept

/-- The method type can be read: its own parameters are variables in the function and the block, but
not in the bounds. -/
structure Readable (type : MethodType) : Prop where
  names : ∀ param ∈ type.typeParams, IsUpper param.name
  bounds : ∀ param ∈ type.typeParams, ∀ bound ∈ param.types, bound.Everywhere (Layer.Readable [])
  body : type.body.Everywhere (Layer.Readable (TypeParam.names type.typeParams))

end MethodType

end Signet
