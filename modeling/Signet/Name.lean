/-! # Qualified names

A *namespace* is a path of modules, either absolute (from the top level) or relative. A *type
name* is a last component in a namespace. Both are written with `::`; reading a name is the inverse
of writing it on every text, because the text is split at each `::` and nothing is dropped.
-/

namespace Signet

/-- A path of modules: `::Foo::Bar::` is absolute, `Foo::Bar::` is relative. -/
structure Namespace where
  path : List String
  absolute : Bool
deriving DecidableEq, Repr

namespace Namespace

/-- The top level. -/
def root : Namespace := ⟨[], true⟩

/-- The relative path without components. -/
def empty : Namespace := ⟨[], false⟩

/-- The path has no components. -/
def isEmpty (scope : Namespace) : Bool := scope.path.isEmpty

/-- The path is the top level. -/
def isRoot (scope : Namespace) : Bool := scope.absolute && scope.path.isEmpty

/-- The path with one more component. -/
def append (scope : Namespace) (component : String) : Namespace :=
  { scope with path := scope.path ++ [component] }

/-- The path without its last component. -/
def parent (scope : Namespace) : Option Namespace :=
  if scope.path.isEmpty then none else some { scope with path := scope.path.dropLast }

/-- A path read inside another one: an absolute path stands for itself. -/
def join (scope other : Namespace) : Namespace :=
  if other.absolute then other else { scope with path := scope.path ++ other.path }

/-- The path from the top level. -/
def toAbsolute (scope : Namespace) : Namespace := { scope with absolute := true }

/-- The path from wherever it is read. -/
def toRelative (scope : Namespace) : Namespace := { scope with absolute := false }

/-- The mark of an absolute path and the separator of components. -/
def separator : List Char := [':', ':']

/-- The path as text: each component is followed by a separator. -/
def print (scope : Namespace) : List Char :=
  (if scope.absolute then separator else [])
    ++ scope.path.flatMap fun component => component.toList ++ separator

instance : ToString Namespace := ⟨fun scope => String.ofList scope.print⟩

end Namespace

/-- What the spelling of a name says it refers to. -/
inductive NameKind where
  | ofClass
  | ofInterface
  | ofAlias
deriving DecidableEq, Repr

/-- The word for a kind of names. -/
def NameKind.word : NameKind → String
  | ofClass => "class"
  | ofInterface => "interface"
  | ofAlias => "alias"

/-- The name of a class, a module, an interface or an alias. -/
structure TypeName where
  scope : Namespace
  base : String
deriving DecidableEq, Repr

namespace TypeName

/-! ## Reading and writing -/

/-- The parts of a text between separators. The text is split from the left, so in `:::` the
third colon belongs to the part after the separator. -/
def split : List Char → List (List Char)
  | ':' :: ':' :: text => [] :: split text
  | c :: text =>
    match split text with
    | [] => [[c]]
    | part :: parts => (c :: part) :: parts
  | [] => [[]]

/-- The name that consists of the given parts, the last of which is its base. -/
def ofParts (absolute : Bool) (parts : List (List Char)) : TypeName where
  scope := ⟨parts.dropLast.map String.ofList, absolute⟩
  base := String.ofList (parts.getLastD [])

/-- Reads a name. Every text is one. -/
def ofChars : List Char → TypeName
  | ':' :: ':' :: text => ofParts true (split text)
  | text => ofParts false (split text)

/-- Reads a name. Every text is one. -/
def ofString (text : String) : TypeName := ofChars text.toList

/-- The name as text. -/
def print (name : TypeName) : List Char := name.scope.print ++ name.base.toList

instance : ToString TypeName := ⟨fun name => String.ofList name.print⟩

/-! ## Operations -/

/-- The name is written from the top level. -/
def isAbsolute (name : TypeName) : Bool := name.scope.absolute

/-- The name from the top level. -/
def toAbsolute (name : TypeName) : TypeName := { name with scope := name.scope.toAbsolute }

/-- The name from wherever it is read. -/
def toRelative (name : TypeName) : TypeName := { name with scope := name.scope.toRelative }

/-- The namespace of the members of the module with this name. -/
def toNamespace (name : TypeName) : Namespace := name.scope.append name.base

/-- A relative name read in a namespace; an absolute one stands for itself. -/
def within (name : TypeName) (scope : Namespace) : TypeName :=
  if name.isAbsolute then name else { name with scope := scope.join name.scope }

/-- In an absolute namespace every name becomes absolute. -/
theorem isAbsolute_within (name : TypeName) (scope : Namespace)
    (h : scope.absolute = true) : (name.within scope).isAbsolute = true := by
  unfold within
  by_cases habs : name.isAbsolute
  · simp [habs]
  · have : name.scope.absolute = false := by simpa [isAbsolute] using habs
    simp [isAbsolute, Namespace.join, this, h]

/-- A base without any namespace, such as `T`. -/
def isSimple (name : TypeName) : Bool := !name.isAbsolute && name.scope.isEmpty

/-- What the spelling of the base says: an underscore before a capital is an interface, a capital
a class, everything else an alias. -/
def kind (name : TypeName) : NameKind :=
  match name.base.toList with
  | '_' :: second :: _ => if second.isUpper then .ofInterface else .ofAlias
  | first :: _ => if first.isUpper then .ofClass else .ofAlias
  | [] => .ofAlias

/-- The order of names: by path, then relative before absolute, then by base. Texts compare by
code points. -/
def order (a b : TypeName) : Ordering :=
  (compare a.scope.path b.scope.path).then
    ((compare a.scope.absolute b.scope.absolute).then (compare a.base b.base))

end TypeName

/-- The module that a namespace is the inside of. -/
def Namespace.toTypeName (scope : Namespace) : Option TypeName :=
  match scope.parent, scope.path.getLast? with
  | some outer, some base => some ⟨outer, base⟩
  | _, _ => none

end Signet
