import Signet.Environment.Context
import Signet.Environment.Error
import Signet.Signature.Basic
import Signet.Type.Substitution

/-! # Class entries

An entry collects all declarations of one class or module, in the order in which they were read.
They have to agree on the type parameters, up to their names.
-/

namespace Signet

/-! ## Agreement of type parameters -/

/-- The substitution that turns the names of one list of type parameters into those at the same
place of another. -/
def aligning (source target : List TypeParam) : Substitution :=
  .ofList ((TypeParam.names source).zip ((TypeParam.names target).map fun name => ⟨.var name⟩))

/-- Two type parameters at one place of two lists agree: in variance, and in the bound once both
bounds are written with the names of the first list. -/
def agreeingParams (reference other : List TypeParam) (expected found : TypeParam) : Bool :=
  let expectedBound := expected.upperBound.map (·.bind (TypeParam.names reference))
  let foundBound := found.upperBound.map fun bound =>
    (bound.bind (TypeParam.names other)).substitute (aligning other reference)
  expected.variance = found.variance && Ty.sameOption expectedBound foundBound

/-- Two lists of type parameters agree place by place. -/
def compatibleTypeParams (reference other : List TypeParam) : Bool :=
  reference.length = other.length
    && (reference.zip other).all fun pair => agreeingParams reference other pair.1 pair.2

/-! ## Entries -/

/-- A declaration and the context in which it stands. -/
structure Record where
  context : Context
  declaration : Declaration

/-- All declarations of one class or module. -/
structure ClassEntry where
  name : TypeName
  records : List Record := []

namespace ClassEntry

/-- The entry with one more declaration. -/
def add (entry : ClassEntry) (record : Record) : ClassEntry :=
  { entry with records := entry.records ++ [record] }

/-- The first declaration opens a module. -/
def isModule (entry : ClassEntry) : Bool :=
  match entry.records with
  | first :: _ => first.declaration.isModule
  | [] => false

/-- The declaration that speaks for the entry: the first that names a superclass, or else the first
of all. -/
def primary? (entry : ClassEntry) : Option Record :=
  (entry.records.find? fun record => record.declaration.superclass.isSome).or entry.records.head?

/-- The declaration that speaks for the entry, which must have one. -/
def primary (entry : ClassEntry) : Except EnvironmentError Record :=
  match entry.primary? with
  | some record => .ok record
  | none => .error (.emptyEntry entry.name)

/-- The type parameters of the primary declaration. -/
def typeParams (entry : ClassEntry) : Except EnvironmentError (List TypeParam) := do
  return (← entry.primary).declaration.typeParams

/-- Every declaration agrees with the first on the type parameters. -/
def validate (entry : ClassEntry) : Except EnvironmentError Unit :=
  match entry.records with
  | [] => .error (.emptyEntry entry.name)
  | first :: others =>
    let reference := first.declaration
    match others.find? fun record =>
        !compatibleTypeParams reference.typeParams record.declaration.typeParams with
    | some record =>
      .error (.genericParameterMismatch entry.name reference.location record.declaration.location)
    | none => .ok ()

/-- The members of all declarations, each in the context inside its declaration. -/
def members (entry : ClassEntry) : List (Context × Member) :=
  entry.records.flatMap fun record =>
    record.declaration.members.map fun member => (record.context.enter entry.name, member)

end ClassEntry

end Signet
