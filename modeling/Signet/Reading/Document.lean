import Signet.Reading.Declarations

/-! # Reading texts

The ways into the library for text: a signature document, a type, overloads of a method, and a
list of type parameters. Each reads a range of a buffer, so that a part of a file or a buffer that
was carved out of it can be read as it stands.
-/

namespace Signet

open Grammar

/-- Reads a range of a buffer as a rule. -/
def readRange {α : Type} (rule : Rule) (buffer : Buffer) (range : Range)
    (meaning : Excerpt → ParseTree → Except Fault α) : Except ParseError α :=
  match Excerpt.ofRange buffer range with
  | .error error => .error (.location error)
  | .ok excerpt => excerpt.read rule (meaning excerpt)

/-- Reads a type. The scope lists the type variables. -/
def readType (buffer : Buffer) (range : Range) (scope : List String) : Except ParseError Ty :=
  readRange .wholeType buffer range fun _ tree => do
    readTypeTree scope (← needTree tree .typeExpr)

/-- Reads one or more method types with bars in between. -/
def readOverloads (buffer : Buffer) (range : Range) (scope : List String) :
    Except ParseError (List MethodType) :=
  readRange .wholeMethodTypes buffer range fun excerpt tree =>
    readMethodTypes excerpt scope tree.children

/-- Reads a list of type parameters without brackets. -/
def readGenerics (buffer : Buffer) (range : Range) (scope : List String) :
    Except ParseError (List TypeParam) :=
  readRange .wholeTypeParams buffer range fun excerpt tree =>
    readTypeParams excerpt scope tree.children

/-- Reads a signature document. -/
def readSignature (buffer : Buffer) : Except ParseError (List Declaration) :=
  readRange .document buffer buffer.all fun excerpt tree =>
    readDeclarations excerpt tree.children

/-! ## Texts by themselves -/

/-- Reads a type that stands by itself. -/
def Ty.ofString (text : String) : Except ParseError Ty :=
  let buffer := Buffer.ofString "(type)" text
  readType buffer buffer.all []

/-- Reads a method type that stands by itself. There must be no second one. -/
def MethodType.ofString (text : String) : Except ParseError MethodType := do
  let buffer := Buffer.ofString "(method type)" text
  match ← readOverloads buffer buffer.all [] with
  | [type] => return type
  | _ => throw (.refused .severalMethodTypes ⟨0, Text.byteLength buffer.content⟩)

end Signet
