import Signet.Name

/-! # Contexts

A context is the modules around a piece of code, from the inside out. A module whose name cannot be
told is still one of them, but no name is looked up in it.
-/

namespace Signet

/-- A module around some code. -/
inductive Enclosing where
  | known (name : TypeName)
  | unknown
deriving DecidableEq, Repr

namespace Enclosing

/-- The module as text. -/
def print : Enclosing → List Char
  | known name => name.print
  | unknown => ['?']

/-- The name of the module, if it can be told. -/
def name? : Enclosing → Option TypeName
  | known name => some name
  | unknown => none

end Enclosing

/-- The modules around some code, innermost first. -/
structure Context where
  modules : List Enclosing
deriving DecidableEq, Repr

namespace Context

/-- No module around. -/
def top : Context := ⟨[]⟩

/-- Inside one more module. -/
def push (context : Context) (module : Enclosing) : Context := ⟨module :: context.modules⟩

/-- Inside a module with a name. -/
def enter (context : Context) (name : TypeName) : Context := context.push (.known name)

/-- Inside a module whose name cannot be told. -/
def enterUnknown (context : Context) : Context := context.push .unknown

/-- Outside the innermost module. -/
def parent (context : Context) : Option Context :=
  match context.modules with
  | [] => none
  | _ :: outer => some ⟨outer⟩

/-- The names of the modules that have one, innermost first. -/
def names (context : Context) : List TypeName := context.modules.filterMap Enclosing.name?

/-- Some module around has no name that can be told. -/
def hasUnknown (context : Context) : Bool := context.modules.contains .unknown

/-- The namespace in which a declaration here declares: the inside of the innermost module with a
name. -/
def scope (context : Context) : Namespace :=
  match context.names with
  | name :: _ => name.toNamespace.toAbsolute
  | [] => .root

/-- The absolute name of what is declared here under a name. -/
def qualify (context : Context) (name : TypeName) : TypeName := name.within context.scope

/-- Declarations are made from the top level. -/
theorem absolute_scope (context : Context) : context.scope.absolute = true := by
  unfold scope
  split <;> rfl

/-- What is declared has an absolute name. -/
theorem isAbsolute_qualify (context : Context) (name : TypeName) :
    (context.qualify name).isAbsolute = true :=
  name.isAbsolute_within context.scope context.absolute_scope

/-- What a relative name may refer to here, in the order in which it is looked up: inside each
module around, then at the top level. -/
def candidates (context : Context) (name : TypeName) : List TypeName :=
  (context.names.map fun module => name.within module.toNamespace.toAbsolute) ++ [name.toAbsolute]

/-- What a name refers to here: an absolute name to itself, a relative one to the first candidate
that is declared. -/
def resolve (context : Context) (name : TypeName) (declared : TypeName → Bool) :
    Option TypeName :=
  if name.isAbsolute then some name else (context.candidates name).find? declared

/-- The candidates that are looked up before a name is resolved or given up. -/
def tried (context : Context) (name : TypeName) (declared : TypeName → Bool) : List TypeName :=
  if name.isAbsolute then []
  else
    let candidates := context.candidates name
    let missing := candidates.takeWhile fun candidate => !declared candidate
    candidates.take (missing.length + 1)

/-- The modules as text, each around what is inside it. -/
def printModules : List Enclosing → List Char
  | [] => ['n', 'i', 'l']
  | module :: outer => ['('] ++ printModules outer ++ [',', ' '] ++ module.print ++ [')']

/-- The context as text. -/
def print (context : Context) : List Char := printModules context.modules

end Context

end Signet
