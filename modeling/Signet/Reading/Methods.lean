import Signet.Reading.Types
import Signet.Type.Method

/-! # The meaning of type parameters and method types

The types in a list of type parameters are read in the scope around the list. The rest of a method
type is read in that scope and its own type parameters together.
-/

namespace Signet

open Grammar

/-- The first tree of a rule. -/
def findTree (rule : Rule) (trees : List ParseTree) : Option ParseTree :=
  trees.find? fun tree => tree.rule = rule

/-- The children of the first tree of a rule; none if there is no such tree. -/
def childrenOf (rule : Rule) (trees : List ParseTree) : List ParseTree :=
  ((findTree rule trees).map (·.children)).getD []

/-- The first tree of a rule, which the grammar promises. -/
def needTree (whole : ParseTree) (rule : Rule) : Except Fault ParseTree :=
  match findTree rule whole.children with
  | some tree => .ok tree
  | none => .error ⟨.malformed, whole.range⟩

namespace Excerpt

variable {shape : Shape}

/-- The location with the range of the first tree of a rule as a required part. -/
def recordTree (excerpt : Excerpt) (trees : List ParseTree) (location : Location shape)
    (key : RequiredKey) (rule : Rule) : Location shape :=
  match findTree rule trees with
  | some tree => location.record key (excerpt.range tree)
  | none => location

/-- The location with the range of the first tree of a rule as an optional part, absent if there is
no such tree. -/
def recordTree? (excerpt : Excerpt) (trees : List ParseTree) (location : Location shape)
    (key : OptionalKey) (rule : Rule) : Location shape :=
  location.recordOptional key ((findTree rule trees).map excerpt.range)

end Excerpt

/-! ## Type parameters -/

/-- The type in the first tree of a rule that wraps a type. -/
def readWrapped (scope : List String) (rule : Rule) (trees : List ParseTree) :
    Except Fault (Option Ty) :=
  match findTree rule trees with
  | some tree => do
    let inner ← needTree tree .typeExpr
    return some (← readTypeTree scope inner)
  | none => return none

/-- The variance that a mark stands for. -/
def readVariance (trees : List ParseTree) : Variance :=
  match findTree .variance trees with
  | some tree => if tree.string = "in" then .contravariant else .covariant
  | none => .invariant

/-- The parts of the location of a type parameter. -/
def typeParamLocation (excerpt : Excerpt) (tree : ParseTree) : Location .typeParam :=
  let trees := tree.children
  let location := excerpt.recordTree trees (excerpt.location tree) .name .upperIdent
  let location := excerpt.recordTree? trees location .variance .variance
  let location := excerpt.recordTree? trees location .unchecked .unchecked
  let location := excerpt.recordTree? trees location .upperBound .upperBound
  excerpt.recordTree? trees location .default .defaultType

/-- The type parameter that a tree means. -/
def readTypeParam (excerpt : Excerpt) (scope : List String) (tree : ParseTree) :
    Except Fault TypeParam := do
  let name ← needTree tree .upperIdent
  let upperBound ← readWrapped scope .upperBound tree.children
  let default ← readWrapped scope .defaultType tree.children
  return {
    name := name.string
    variance := readVariance tree.children
    upperBound, default
    unchecked := (findTree .unchecked tree.children).isSome
    location := some (typeParamLocation excerpt tree) }

/-- The type parameters that trees mean. -/
def readTypeParams (excerpt : Excerpt) (scope : List String) (trees : List ParseTree) :
    Except Fault (List TypeParam) :=
  (trees.filter fun tree => tree.rule = .typeParam).mapM (readTypeParam excerpt scope)

/-! ## Method types -/

/-- The method type that a tree means. -/
def readMethodType (excerpt : Excerpt) (scope : List String) (tree : ParseTree) :
    Except Fault MethodType := do
  let typeParams ← readTypeParams excerpt scope (childrenOf .typeParams tree.children)
  let parts ← readSignatureTrees (scope ++ TypeParam.names typeParams) tree.children
  return {
    typeParams
    function := parts.function
    block := parts.block
    location := some (excerpt.location tree) }

/-- The method types that trees mean. -/
def readMethodTypes (excerpt : Excerpt) (scope : List String) (trees : List ParseTree) :
    Except Fault (List MethodType) :=
  (trees.filter fun tree => tree.rule = .methodType).mapM (readMethodType excerpt scope)

end Signet
