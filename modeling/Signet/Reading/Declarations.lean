import Signet.Reading.Methods
import Signet.Signature.Basic

/-! # The meaning of declarations

The type parameters of a class or a module are in scope in everything that it contains, together
with those around it. Locations record each part that the grammar names.
-/

namespace Signet

open Grammar

/-! ## References -/

/-- The rules that read the name of a class or an interface. -/
def isNameTree (tree : ParseTree) : Bool := tree.rule = .className || tree.rule = .interfaceName

/-- The tree of the name in a reference, which the grammar promises. -/
def needName (whole : ParseTree) : Except Fault ParseTree :=
  match whole.children.find? isNameTree with
  | some tree => .ok tree
  | none => .error ⟨.malformed, whole.range⟩

/-- The type arguments among some trees. -/
def readArgs (scope : List String) (trees : List ParseTree) : Except Fault (List Ty) :=
  readTypeTrees scope (childrenOf .typeArgs trees)

/-- A superclass or a self type. Its location starts with its name. -/
def readReference (excerpt : Excerpt) (scope : List String) (tree : ParseTree) :
    Except Fault Reference := do
  let name ← needName tree
  let args ← readArgs scope tree.children
  return {
    name := .ofChars name.text
    args
    location := excerpt.locate ((excerpt.range name).through (excerpt.range tree)) }

/-! ## Members -/

/-- The visibility that a tree means. -/
def readVisibility (tree : ParseTree) : Visibility :=
  if tree.string = "private" then .privately else .publicly

/-- Who answers a method. -/
def readMethodKind (trees : List ParseTree) : MethodKind :=
  match findTree .methodKind trees with
  | some tree => if tree.string = "self?." then .ofBoth else .ofSingleton
  | none => .ofInstance

/-- A text without a character at its ends. -/
def stripped (mark : Char) (text : List Char) : List Char :=
  ((text.dropWhile (· = mark)).reverse.dropWhile (· = mark)).reverse

/-- The parts of the location of a method. -/
def methodLocation (excerpt : Excerpt) (tree : ParseTree) : Location .method :=
  let trees := tree.children
  let location := excerpt.recordTree trees (excerpt.location tree) .keyword .defKeyword
  let location := excerpt.recordTree trees location .name .methodName
  let location := excerpt.recordTree? trees location .kind .methodKind
  let location :=
    excerpt.recordTree? (childrenOf .overloads trees) location .overloading .overloading
  excerpt.recordTree? trees location .visibility .visibility

/-- The method that a tree means. -/
def readMethod (excerpt : Excerpt) (scope : List String) (tree : ParseTree) :
    Except Fault Method := do
  let overloads := childrenOf .overloads tree.children
  let types ← readMethodTypes excerpt scope overloads
  let name ← needTree tree .methodName
  return {
    name := String.ofList (stripped Scanner.backtick name.text)
    kind := readMethodKind tree.children
    overloads := types
    overloading := (findTree .overloading overloads).isSome
    visibility := (findTree .visibility tree.children).map readVisibility
    location := methodLocation excerpt tree }

/-- The parts of the location of a mixin. -/
def mixinLocation (excerpt : Excerpt) (tree name : ParseTree) : Location .mixin :=
  let location : Location .mixin := (excerpt.location tree).record .name (excerpt.range name)
  excerpt.recordTree? tree.children location .args .typeArgs

/-- The mixin that a tree means. -/
def readMixin (excerpt : Excerpt) (scope : List String) (tree : ParseTree) :
    Except Fault Mixin := do
  let keyword ← needTree tree .mixinKind
  let name ← needName tree
  let args ← readArgs scope tree.children
  return {
    kind := (MixinKind.ofKeyword? keyword.string).getD .including
    name := .ofChars name.text
    args
    location := mixinLocation excerpt tree name }

/-- The parts of the location of an attribute. -/
def attributeLocation (excerpt : Excerpt) (tree : ParseTree) : Location .attr :=
  let trees := tree.children
  let location := excerpt.recordTree trees (excerpt.location tree) .keyword .attributeKind
  let location := excerpt.recordTree trees location .name .attributeName
  excerpt.recordTree? trees location .type .typeExpr

/-- The attribute that a tree means. -/
def readAttribute (excerpt : Excerpt) (scope : List String) (tree : ParseTree) :
    Except Fault Attribute := do
  let keyword ← needTree tree .attributeKind
  let name ← needTree tree .attributeName
  let type ← readTypeTree scope (← needTree tree .typeExpr)
  return {
    kind := (AttributeKind.ofKeyword? keyword.string).getD .accessor
    name := name.string
    type
    location := attributeLocation excerpt tree }

/-! ## Headings -/

/-- The parts of the location of a class. -/
def classLocation (excerpt : Excerpt) (tree : ParseTree) : Location .classDecl :=
  let trees := tree.children
  let location := excerpt.recordTree trees (excerpt.location tree) .keyword .classKeyword
  let location := excerpt.recordTree trees location .name .className
  let location := excerpt.recordTree trees location .finish .endKeyword
  let location := excerpt.recordTree? trees location .typeParams .typeParams
  excerpt.recordTree? (childrenOf .superclass trees) location .lt .superclassMark

/-- From the first to the last of some trees. -/
def coveringRange (excerpt : Excerpt) (trees : List ParseTree) : Option Range :=
  match trees.head?, trees.getLast? with
  | some first, some last => some ((excerpt.range first).through (excerpt.range last))
  | _, _ => none

/-- The self types among some trees. -/
def selfTypeTrees (trees : List ParseTree) : List ParseTree :=
  (childrenOf .selfTypes trees).filter fun tree => tree.rule = .selfType

/-- The parts of the location of a module. -/
def moduleLocation (excerpt : Excerpt) (tree : ParseTree) : Location .moduleDecl :=
  let trees := tree.children
  let location := excerpt.recordTree trees (excerpt.location tree) .keyword .moduleKeyword
  let location := excerpt.recordTree trees location .name .className
  let location := excerpt.recordTree trees location .finish .endKeyword
  let location := excerpt.recordTree? trees location .typeParams .typeParams
  let location :=
    excerpt.recordTree? (childrenOf .selfTypes trees) location .colon .selfTypesMark
  location.recordOptional .selfTypes (coveringRange excerpt (selfTypeTrees trees))

/-- The superclass that a class declaration names. -/
def readSuperclass (excerpt : Excerpt) (scope : List String) (trees : List ParseTree) :
    Except Fault (Option Reference) :=
  match findTree .superclass trees with
  | some tree => return some (← readReference excerpt scope tree)
  | none => return none

/-- What only a class or only a module has, in the scope inside it. -/
def readForm (excerpt : Excerpt) (scope : List String) (tree : ParseTree) : Except Fault Form :=
  match tree.rule with
  | .moduleDecl => do
    let selfTypes ← (selfTypeTrees tree.children).mapM (readReference excerpt scope)
    return .ofModule selfTypes (moduleLocation excerpt tree)
  | _ => do
    let superclass ← readSuperclass excerpt scope tree.children
    return .ofClass superclass (classLocation excerpt tree)

/-- What a declaration declares. -/
def readHeading (excerpt : Excerpt) (scope : List String) (tree : ParseTree) :
    Except Fault Heading := do
  let name ← needTree tree .className
  let typeParams ← readTypeParams excerpt scope (childrenOf .typeParams tree.children)
  let form ← readForm excerpt (scope ++ TypeParam.names typeParams) tree
  return { name := .ofChars name.text, typeParams, form }

/-! ## Declarations -/

mutual

/-- The declaration that a tree means. -/
def readDeclaration (excerpt : Excerpt) (scope : List String) :
    ParseTree → Except Fault Declaration
  | ⟨rule, stretch, children⟩ => do
    let heading ← readHeading excerpt scope ⟨rule, stretch, children⟩
    let members ← readMembers excerpt (scope ++ TypeParam.names heading.typeParams) children
    return ⟨heading, members⟩

/-- The members among some trees, in order. -/
def readMembers (excerpt : Excerpt) (scope : List String) :
    List ParseTree → Except Fault (List Member)
  | [] => return []
  | ⟨rule, stretch, children⟩ :: trees => do
    let tree : ParseTree := ⟨rule, stretch, children⟩
    match rule with
    | .classDecl | .moduleDecl =>
      let declaration ← readDeclaration excerpt scope ⟨rule, stretch, children⟩
      return .nested declaration :: (← readMembers excerpt scope trees)
    | .methodMember =>
      let method ← readMethod excerpt scope tree
      return .method method :: (← readMembers excerpt scope trees)
    | .mixinMember =>
      let mixin ← readMixin excerpt scope tree
      return .mixin mixin :: (← readMembers excerpt scope trees)
    | .attributeMember =>
      let attr ← readAttribute excerpt scope tree
      return .attr attr :: (← readMembers excerpt scope trees)
    | _ => readMembers excerpt scope trees

end

/-- The declarations among some trees. -/
def readDeclarations (excerpt : Excerpt) (trees : List ParseTree) :
    Except Fault (List Declaration) :=
  (trees.filter fun tree => tree.rule = .classDecl || tree.rule = .moduleDecl).mapM
    (readDeclaration excerpt [])

end Signet
