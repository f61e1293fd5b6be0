import Signet.Name
import Signet.Ruby.Node
import Signet.Text.Alphanumeric

/-! # Names in Ruby code

Which constructs name something that can be told without running the code: a constant path names a
class or a module, a symbol or a plain string names an attribute.
-/

namespace Signet.Ruby.Node

open Text

/-! ## Constant paths -/

/-- The kind of a constant by itself. -/
def constantKind : String := "constant"

/-- The kind of a constant inside a module. -/
def scopedKind : String := "scope_resolution"

/-- The constant that a list of children has for its field of the name. -/
def pathBase? (buffer : Buffer) (children : List Node) : Option String := do
  let name ← children.find? fun child => child.head.field = some "name"
  if name.kind = constantKind then some (name.string buffer) else none

mutual

/-- The name that a constant path stands for; nothing for an expression that computes a module. -/
def constantPath? (buffer : Buffer) : Node → Option TypeName
  | ⟨head, children⟩ =>
    if head.kind = constantKind then
      some ⟨.empty, Node.string buffer ⟨head, children⟩⟩
    else if head.kind = scopedKind then do
      let base ← pathBase? buffer children
      let scope ← pathScope? buffer children
      return ⟨scope, base⟩
    else none

/-- The namespace that a list of children has for its field of the scope; the top level if that
field is not filled. -/
def pathScope? (buffer : Buffer) : List Node → Option Namespace
  | [] => some .root
  | ⟨head, children⟩ :: nodes =>
    if head.field = some "scope" then
      (constantPath? buffer ⟨head, children⟩).map TypeName.toNamespace
    else pathScope? buffer nodes

end

/-! ## Literal names -/

/-- The text between a mark at both ends. -/
def unquoted? (mark : Char) (text : List Char) : Option (List Char) :=
  match text with
  | first :: rest =>
    if first = mark && rest.getLast? = some mark then some rest.dropLast else none
  | [] => none

/-- A letter or a digit of any script, or the underscore. -/
def isPlainNameChar (c : Char) : Bool := isAlphanumeric c || c = '_'

/-- The name that a symbol or a plain string literal stands for. -/
def literalName? (buffer : Buffer) (node : Node) : Option String :=
  let text := node.text buffer
  if node.kind = "simple_symbol" then
    match text with
    | ':' :: name => some (String.ofList name)
    | _ => none
  else if node.kind = "string" then do
    let name ← (unquoted? '"' text).or (unquoted? '\'' text)
    if name.all isPlainNameChar then some (String.ofList name) else none
  else none

end Signet.Ruby.Node
