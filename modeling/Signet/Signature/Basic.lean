import Signet.Type.Method

/-! # Declarations

A declaration opens a class or a module and lists members. The *heading* says what is declared;
members are methods, mixins, attributes and nested declarations. Every part carries the location it
was read from.
-/

namespace Signet

/-- Documentation of a declaration or a method. -/
structure Comment where
  text : String
  location : Location .plain

/-- A class or module that is referred to with type arguments: a superclass, a self type. -/
structure Reference where
  name : TypeName
  args : List Ty := []
  location : Location .plain

/-! ## Members -/

/-- Who answers a method: instances, the class itself, or both. -/
inductive MethodKind where
  | ofInstance
  | ofSingleton
  | ofBoth
deriving DecidableEq, Repr

/-- The word for who answers a method. -/
def MethodKind.word : MethodKind → String
  | ofInstance => "instance"
  | ofSingleton => "singleton"
  | ofBoth => "singleton_instance"

/-- Who may call a method. -/
inductive Visibility where
  | publicly
  | privately
deriving DecidableEq, Repr

/-- The keyword of a visibility. -/
def Visibility.keyword : Visibility → String
  | publicly => "public"
  | privately => "private"

/-- A method with its overloads. An overloading definition adds them to those that the method has
elsewhere. -/
structure Method where
  name : String
  kind : MethodKind
  overloads : List MethodType
  overloading : Bool := false
  visibility : Option Visibility := none
  comment : Option Comment := none
  location : Location .method

/-- How a module is mixed in. -/
inductive MixinKind where
  | including
  | extending
  | prepending
deriving DecidableEq, Repr

/-- The keyword of a mixin. -/
def MixinKind.keyword : MixinKind → String
  | including => "include"
  | extending => "extend"
  | prepending => "prepend"

/-- The mixin of a keyword. -/
def MixinKind.ofKeyword? : String → Option MixinKind
  | "include" => some including
  | "extend" => some extending
  | "prepend" => some prepending
  | _ => none

/-- A module mixed into a class or a module. -/
structure Mixin where
  kind : MixinKind
  name : TypeName
  args : List Ty := []
  location : Location .mixin

/-- Which accessors an attribute defines. -/
inductive AttributeKind where
  | reader
  | writer
  | accessor
deriving DecidableEq, Repr

/-- The keyword of an attribute. -/
def AttributeKind.keyword : AttributeKind → String
  | reader => "attr_reader"
  | writer => "attr_writer"
  | accessor => "attr_accessor"

/-- The attribute of a keyword. -/
def AttributeKind.ofKeyword? : String → Option AttributeKind
  | "attr_reader" => some reader
  | "attr_writer" => some writer
  | "attr_accessor" => some accessor
  | _ => none

/-- An attribute of the instances of a class. -/
structure Attribute where
  kind : AttributeKind
  name : String
  type : Ty
  location : Location .attr

/-! ## Declarations -/

/-- What only classes or only modules have. -/
inductive Form where
  | ofClass (superclass : Option Reference) (location : Location .classDecl)
  | ofModule (selfTypes : List Reference) (location : Location .moduleDecl)

/-- A declaration without its members. -/
structure Heading where
  name : TypeName
  typeParams : List TypeParam := []
  comment : Option Comment := none
  form : Form

mutual

/-- A class or a module with its members. -/
inductive Declaration where
  | mk (heading : Heading) (members : List Member)

/-- A member of a class or a module. -/
inductive Member where
  | method (method : Method)
  | mixin (mixin : Mixin)
  | attr (attr : Attribute)
  | nested (declaration : Declaration)

end

namespace Heading

/-- The declaration opens a module. -/
def isModule (heading : Heading) : Bool :=
  match heading.form with
  | .ofClass .. => false
  | .ofModule .. => true

/-- The word for what is declared. -/
def kindName (heading : Heading) : String := if heading.isModule then "module" else "class"

/-- The superclass, if one is written. -/
def superclass (heading : Heading) : Option Reference :=
  match heading.form with
  | .ofClass superclass _ => superclass
  | .ofModule .. => none

/-- Where the declaration is, without its parts. -/
def location (heading : Heading) : Location .plain :=
  match heading.form with
  | .ofClass _ location => location.plain
  | .ofModule _ location => location.plain

end Heading

namespace Declaration

/-- What is declared. -/
def heading : Declaration → Heading
  | ⟨heading, _⟩ => heading

/-- The members in the order in which they are written. -/
def members : Declaration → List Member
  | ⟨_, members⟩ => members

/-- The name as it is written. -/
def name (declaration : Declaration) : TypeName := declaration.heading.name

/-- The generic parameters. -/
def typeParams (declaration : Declaration) : List TypeParam := declaration.heading.typeParams

/-- The declaration opens a module. -/
def isModule (declaration : Declaration) : Bool := declaration.heading.isModule

/-- The word for what is declared. -/
def kindName (declaration : Declaration) : String := declaration.heading.kindName

/-- The superclass, if one is written. -/
def superclass (declaration : Declaration) : Option Reference := declaration.heading.superclass

/-- Where the declaration is. -/
def location (declaration : Declaration) : Location .plain := declaration.heading.location

/-- The declaration with one more member at the end. -/
def addMember (declaration : Declaration) (member : Member) : Declaration :=
  ⟨declaration.heading, declaration.members ++ [member]⟩

end Declaration

/-- Where a member is, without its parts. -/
def Member.location : Member → Location .plain
  | .method definition => definition.location.plain
  | .mixin inclusion => inclusion.location.plain
  | .attr accessor => accessor.location.plain
  | .nested declaration => declaration.location

end Signet
