import Signet.Type.Basic

/-! # Type variables

Substitution replaces the variables of a type. Binding turns bare class names into variables: a
name without namespace and arguments that is listed among the variables in scope. Both change
leaves only, so neither looks at what it has just put in.
-/

namespace Signet

/-- What each variable stands for; a variable without a value stands for itself. -/
abbrev Substitution := String → Option Ty

/-- The substitution of a list of bindings. Of two bindings of one variable the later one counts. -/
def Substitution.ofList (bindings : List (String × Ty)) : Substitution :=
  fun name => bindings.reverse.lookup name

namespace Ty

/-- A layer in which a variable has been replaced. -/
def substituteLayer (values : Substitution) : Layer Ty → Ty
  | .var name => (values name).getD ⟨.var name⟩
  | layer => ⟨layer⟩

/-- The type with its variables replaced. -/
def substitute (values : Substitution) : Ty → Ty := fold (substituteLayer values)

/-- A layer in which a bare class name in scope has become a variable. -/
def bindLayer (scope : List String) : Layer Ty → Ty
  | .named .ofClass name [] =>
    if name.isSimple && scope.contains name.base then ⟨.var name.base⟩
    else ⟨.named .ofClass name []⟩
  | layer => ⟨layer⟩

/-- The type with the bare class names of the scope as variables. -/
def bind (scope : List String) : Ty → Ty := fold (bindLayer scope)

/-- Substitution works layer by layer. -/
theorem substitute_mk (values : Substitution) (layer : Layer Ty) :
    substitute values ⟨layer⟩ = substituteLayer values (layer.map (substitute values)) :=
  fold_mk (substituteLayer values) layer

/-- Binding works layer by layer. -/
theorem bind_mk (scope : List String) (layer : Layer Ty) :
    bind scope ⟨layer⟩ = bindLayer scope (layer.map (bind scope)) :=
  fold_mk (bindLayer scope) layer

/-- The variables that occur in a type, from left to right. -/
def vars : Ty → List String := fold fun
  | .var name => [name]
  | layer => layer.parts.flatten

end Ty

/-- The function with its variables replaced. -/
def Function.substitute (values : Substitution) : Function Ty → Function Ty :=
  Function.map (Ty.substitute values)

end Signet
