import Signet.Source.Location
import Signet.Type.Print

/-! # Type parameters and method types

A method type is a function with type parameters of its own, in whose scope its types are read.
-/

namespace Signet

/-- How a type parameter may vary. -/
inductive Variance where
  | invariant
  | covariant
  | contravariant
deriving DecidableEq, Repr

/-- The mark of a variance. -/
def Variance.mark : Variance → String
  | invariant => "invariant"
  | covariant => "out"
  | contravariant => "in"

/-- A generic parameter of a class, a module or a method. -/
structure TypeParam where
  name : String
  variance : Variance := .invariant
  upperBound : Option Ty := none
  default : Option Ty := none
  unchecked : Bool := false
  location : Option (Location .typeParam) := none

namespace TypeParam

/-- A type parameter as text. -/
def print (param : TypeParam) : List Char :=
  (if param.unchecked then "unchecked ".toList else [])
    ++ (if param.variance = .invariant then [] else (param.variance.mark ++ " ").toList)
    ++ param.name.toList
    ++ (param.upperBound.map fun bound => " < ".toList ++ bound.print).getD []
    ++ (param.default.map fun type => " = ".toList ++ type.print).getD []

/-- The names that a list of type parameters brings into scope. -/
def names (params : List TypeParam) : List String := params.map (·.name)

end TypeParam

/-- One overload of a method. -/
structure MethodType where
  typeParams : List TypeParam := []
  function : Function Ty
  block : Option (Block Ty) := none
  location : Option (Location .plain) := none

namespace MethodType

/-- The method type that takes anything and returns anything. -/
def untyped : MethodType := { function := Ty.untypedFunction }

/-- A method type as text. -/
def print (type : MethodType) : List Char :=
  (if type.typeParams.isEmpty then []
    else ['['] ++ joined comma (type.typeParams.map (·.print)) ++ [']', ' '])
    ++ printSignature Ty.print type.function type.block

end MethodType

end Signet
