import Signet.Text.Quoted
import Signet.Type.Basic

/-! # Types as text

A type is written from the inside out. The only thing that a layer needs to know of the texts in
it, besides the texts, is whether their outermost constructor binds loosely: an optional type puts
parentheses around unions, intersections and procs, an intersection around unions.
-/

namespace Signet

open Text

/-- Writes the items one after the other with a text between each two. -/
def joined (between : List Char) (items : List (List Char)) : List Char :=
  between.intercalate items

/-- Comma and space. -/
def comma : List Char := [',', ' ']

/-! ## Literals -/

/-- A literal as text. -/
def Literal.print : Literal → List Char
  | symbol name => ':' :: name.toList
  | string text => quote text.toList
  | integer value => (toString value).toList
  | bool value => (toString value).toList

/-! ## Functions

A function type is written in three parts: its parameters, the block it takes, and what it
returns. `π` below is what is written for a type. -/

variable {τ : Type} (π : τ → List Char)

/-- A parameter as text: its type, then its name. -/
def Param.print (param : Param τ) : List Char :=
  match param.name with
  | some name => π param.type ++ ' ' :: name.toList
  | none => π param.type

/-- A keyword parameter as text. -/
def Keyword.print (keyword : Keyword τ) : List Char :=
  keyword.key.toList ++ [':', ' '] ++ keyword.param.print π

/-- The items of a parameter list: each role has its mark. -/
def Params.items (params : Params τ) : List (List Char) :=
  params.required.map (Param.print π)
    ++ params.optional.map (fun param => '?' :: param.print π)
    ++ params.rest.toList.map (fun param => '*' :: param.print π)
    ++ params.trailing.map (Param.print π)
    ++ params.requiredKeywords.map (Keyword.print π)
    ++ params.optionalKeywords.map (fun keyword => '?' :: keyword.print π)
    ++ params.restKeywords.toList.map (fun param => ['*', '*'] ++ param.print π)

/-- A parameter list as text, without parentheses. -/
def Params.print (params : Params τ) : List Char := joined comma (params.items π)

/-- The parameters of a function in parentheses. -/
def Function.printParams : Function τ → List Char
  | .typed params _ => ['('] ++ params.print π ++ [')']
  | .untyped _ => ['(', '?', ')']

/-- The arrow between parameters and result. -/
def arrow : List Char := [' ', '-', '>', ' ']

/-- A function as text. -/
def Function.print (function : Function τ) : List Char :=
  function.printParams π ++ arrow ++ π function.result

/-- A block as text. -/
def Block.print (block : Block τ) : List Char :=
  (if block.required then [] else ['?'])
    ++ ['\x7b', ' '] ++ block.function.print π ++ [' ', '\x7d']

/-- A function that takes a block, as text. -/
def printSignature (function : Function τ) (block : Option (Block τ)) : List Char :=
  function.printParams π
    ++ (block.map fun block => ' ' :: block.print π).getD []
    ++ arrow ++ π function.result

/-! ## Types -/

/-- How tightly the outermost constructor of a type holds together. -/
inductive Tightness where
  | closed
  | union
  | intersection
  | proc
deriving DecidableEq, Repr

/-- A text and the tightness of the type it stands for. -/
structure Printed where
  text : List Char
  tightness : Tightness

namespace Printed

/-- The text in parentheses. -/
def parenthesized (printed : Printed) : List Char := ['('] ++ printed.text ++ [')']

/-- The text as the type of an optional. -/
def inOptional (printed : Printed) : List Char :=
  match printed.tightness with
  | .closed => printed.text
  | .union | .intersection | .proc => printed.parenthesized

/-- The text as a member of an intersection. -/
def inIntersection (printed : Printed) : List Char :=
  match printed.tightness with
  | .union => printed.parenthesized
  | .closed | .intersection | .proc => printed.text

end Printed

/-- Type arguments as text; nothing if there are none. -/
def printArgs (args : List (List Char)) : List Char :=
  if args.isEmpty then [] else ['['] ++ joined comma args ++ [']']

/-- The text of a layer of texts. -/
def Layer.print : Layer Printed → Printed
  | .base keyword => ⟨keyword.keyword.toList, .closed⟩
  | .var name => ⟨name.toList, .closed⟩
  | .named _ name args => ⟨name.print ++ printArgs (args.map (·.text)), .closed⟩
  | .literal value => ⟨value.print, .closed⟩
  | .optional type => ⟨type.inOptional ++ ['?'], .closed⟩
  | .union types => ⟨joined [' ', '|', ' '] (types.map (·.text)), .union⟩
  | .intersection types => ⟨joined [' ', '&', ' '] (types.map (·.inIntersection)), .intersection⟩
  | .tuple types => ⟨['['] ++ joined comma (types.map (·.text)) ++ [']'], .closed⟩
  | .proc function block => ⟨'^' :: printSignature (·.text) function block, .proc⟩

namespace Ty

/-- The text of a type and its tightness. -/
def printed : Ty → Printed := fold Layer.print

/-- A type as text. -/
def print (type : Ty) : List Char := type.printed.text

instance : ToString Ty := ⟨fun type => String.ofList type.print⟩

end Ty

end Signet
