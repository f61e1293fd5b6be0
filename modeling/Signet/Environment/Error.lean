import Signet.Name
import Signet.Source.Location

/-! # Errors of environments

What can be wrong with declarations that are grammatical one by one: two of one name disagree about
what it is or about its type parameters, or a class is above itself in the hierarchy.
-/

namespace Signet

/-- Why declarations do not fit together. -/
inductive EnvironmentError where
  | emptyEntry (name : TypeName)
  | genericParameterMismatch (name : TypeName) (first other : Location .plain)
  | duplicatedDeclaration (name : TypeName) (kind otherKind : String)
    (first other : Location .plain)
  | cyclicHierarchy (name : TypeName) (cycle : List TypeName) (location : Location .plain)

namespace EnvironmentError

/-- A name as a string. -/
def shown (name : TypeName) : String := String.ofList name.print

/-- Where the offending declaration is. -/
def location : EnvironmentError → Option (Location .plain)
  | emptyEntry _ => none
  | genericParameterMismatch _ _ other => some other
  | duplicatedDeclaration _ _ _ _ other => some other
  | cyclicHierarchy _ _ location => some location

/-- The wording. -/
def message : EnvironmentError → String
  | emptyEntry name => "Class entry `" ++ shown name ++ "` has no declarations"
  | genericParameterMismatch name first other =>
    "Generic parameters of `" ++ shown name ++ "` at " ++ other.print ++ " do not match "
      ++ first.print
  | duplicatedDeclaration name kind otherKind first other =>
    "`" ++ shown name ++ "` is declared as a " ++ kind ++ " at " ++ first.print ++ " and as a "
      ++ otherKind ++ " at " ++ other.print
  | cyclicHierarchy _ cycle _ =>
    "Cyclic class hierarchy: " ++ " < ".intercalate (cycle.map shown)

/-- The name. -/
def kind : EnvironmentError → String
  | emptyEntry _ => "EmptyEntry"
  | genericParameterMismatch .. => "GenericParameterMismatch"
  | duplicatedDeclaration .. => "DuplicatedDeclaration"
  | cyclicHierarchy .. => "CyclicClassHierarchy"

/-- The stable code. -/
def code : EnvironmentError → String
  | emptyEntry _ => "rbs::environment::empty_entry"
  | genericParameterMismatch .. => "rbs::environment::generic_parameter_mismatch"
  | duplicatedDeclaration .. => "rbs::environment::duplicated_declaration"
  | cyclicHierarchy .. => "rbs::environment::cyclic_class_hierarchy"

/-- Advice. -/
def help : EnvironmentError → String
  | emptyEntry _ =>
    "Entries are created together with their first declaration; this is an internal error"
  | genericParameterMismatch .. =>
    "Every declaration of a class or module must declare the same type parameters with the same "
      ++ "variance and bounds"
  | duplicatedDeclaration .. => "A constant can name either a class or a module, not both"
  | cyclicHierarchy .. =>
    "A class cannot inherit from itself, directly or through its superclasses"

/-- The labels on the file of the offending declaration. -/
def labels : EnvironmentError → List Label
  | emptyEntry _ => []
  | genericParameterMismatch _ _ other =>
    [⟨some "type parameters differ from the first declaration", other.span⟩]
  | duplicatedDeclaration _ _ otherKind _ other =>
    [⟨some ("redeclared as a " ++ otherKind ++ " here"), other.span⟩]
  | cyclicHierarchy name _ location =>
    [⟨some ("`" ++ shown name ++ "` inherits from itself"), location.span⟩]

/-- The account of an error. -/
def report (error : EnvironmentError) : Report :=
  { kind := error.kind, message := error.message, code := error.code, help := some error.help
    labels := error.labels }

end EnvironmentError

end Signet
