import Signet.Source.Buffer

/-! # Trees of Ruby code

A concrete tree has a node for every construct and every token of a file. A node has a kind, may be
named or anonymous, may fill a field of its parent, and covers bytes of the file on some rows.

Trees are exchanged as a listing: one row for each node, in document order, with its depth.
-/

namespace Signet.Ruby

open Text

/-- A node without its children. -/
structure Head where
  kind : String
  named : Bool
  field : Option String
  bytes : Range
  startRow : Nat
  stopRow : Nat
deriving DecidableEq, Repr

/-- The constructs that are told apart. -/
inductive Construct where
  | classDefinition
  | moduleDefinition
  | singletonClass
  | method
  | singletonMethod
  | call
  | identifier
  | other
deriving DecidableEq, Repr

/-- The construct of a kind of nodes. -/
def Construct.ofKind : String → Construct
  | "class" => classDefinition
  | "module" => moduleDefinition
  | "singleton_class" => singletonClass
  | "method" => method
  | "singleton_method" => singletonMethod
  | "call" => call
  | "identifier" => identifier
  | _ => other

/-- The name of a construct. -/
def Construct.name : Construct → String
  | classDefinition => "class"
  | moduleDefinition => "module"
  | singletonClass => "singleton_class"
  | method => "method"
  | singletonMethod => "singleton_method"
  | call => "call"
  | identifier => "identifier"
  | other => "other"

/-- What construct a node is. -/
def Head.construct (head : Head) : Construct := .ofKind head.kind

/-- A node of a concrete tree. -/
inductive Node where
  | mk (head : Head) (children : List Node)

namespace Node

/-- The node without its children. -/
def head : Node → Head
  | ⟨head, _⟩ => head

/-- The children, tokens included, in document order. -/
def children : Node → List Node
  | ⟨_, children⟩ => children

/-- The kind of the node. -/
def kind (node : Node) : String := node.head.kind

/-- The bytes that the node covers. -/
def bytes (node : Node) : Range := node.head.bytes

/-! ## Children -/

/-- The first child that fills a field. -/
def child? (node : Node) (field : String) : Option Node :=
  node.children.find? fun child => child.head.field = some field

/-- The children that are not anonymous. -/
def namedChildren (node : Node) : List Node := node.children.filter fun child => child.head.named

/-- The named children of the first child that fills a field; none if there is no such child. -/
def namedChildrenOf (node : Node) (field : String) : List Node :=
  ((node.child? field).map (·.namedChildren)).getD []

/-- The first anonymous child of a kind, such as a keyword. -/
def token? (node : Node) (kind : String) : Option Node :=
  node.children.find? fun child => !child.head.named && child.kind = kind

mutual

/-- The node and everything below it, in document order. -/
def preorder : Node → List Node
  | ⟨head, children⟩ => ⟨head, children⟩ :: preorderAll children

/-- Some nodes and everything below them, in document order. -/
def preorderAll : List Node → List Node
  | [] => []
  | node :: nodes => preorder node ++ preorderAll nodes

end

mutual

/-- The node and every node that is reached from it through named children, in document order. -/
def namedPreorder : Node → List Node
  | ⟨head, children⟩ => ⟨head, children⟩ :: namedPreorderAll children

/-- The named ones of some nodes and what is reached from them, in document order. -/
def namedPreorderAll : List Node → List Node
  | [] => []
  | node :: nodes =>
    (if node.head.named then namedPreorder node else []) ++ namedPreorderAll nodes

end

/-! ## Text -/

/-- The characters that the node covers. -/
def range (buffer : Buffer) (node : Node) : Range :=
  ⟨buffer.charOfByte node.bytes.start, buffer.charOfByte node.bytes.stop⟩

/-- The text that the node covers. -/
def text (buffer : Buffer) (node : Node) : List Char :=
  let range := node.range buffer
  buffer.content.extract range.start range.stop

/-- The text that the node covers, as a string. -/
def string (buffer : Buffer) (node : Node) : String := String.ofList (node.text buffer)

/-! ## Listings -/

/-- A node of a listing, at its depth. -/
structure Row where
  depth : Nat
  head : Head

/-- Puts a row in front of the trees that follow it: the deeper ones up to the next that is not
deeper are its children. -/
def plant (row : Row) (trees : List (Nat × Node)) : List (Nat × Node) :=
  let isDeeper := fun tree : Nat × Node => row.depth < tree.1
  (row.depth, ⟨row.head, (trees.takeWhile isDeeper).map (·.2)⟩) :: trees.dropWhile isDeeper

/-- The tree of a listing: it must have a single root. -/
def ofRows? (rows : List Row) : Option Node :=
  match rows.foldr plant [] with
  | [(_, root)] => some root
  | _ => none

end Node

end Signet.Ruby
