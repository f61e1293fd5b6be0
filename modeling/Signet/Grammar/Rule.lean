/-! # Rules of the signature grammar

The names of the rules, in the order in which an error message lists them, and what each is called
in such a message.
-/

namespace Signet.Grammar

/-- A rule of the grammar. -/
inductive Rule where
  | finish
  | document
  | wholeType
  | wholeMethodTypes
  | wholeTypeParams
  | upperIdent
  | className
  | interfaceName
  | aliasName
  | varName
  | keywordName
  | typeExpr
  | unionType
  | intersectionType
  | optionalType
  | optionalMark
  | parenType
  | tupleType
  | procType
  | classType
  | interfaceType
  | aliasType
  | typeArgs
  | baseType
  | symbolLiteral
  | stringLiteral
  | integerLiteral
  | booleanLiteral
  | arrow
  | methodType
  | untypedParams
  | params
  | requiredParam
  | optionalParam
  | restParam
  | restKeywordsParam
  | keywordParam
  | block
  | typeParams
  | typeParam
  | unchecked
  | variance
  | upperBound
  | defaultType
  | classDecl
  | superclass
  | superclassMark
  | moduleDecl
  | selfTypes
  | selfTypesMark
  | selfType
  | methodMember
  | overloads
  | overloading
  | methodKind
  | visibility
  | methodName
  | mixinMember
  | mixinKind
  | attributeMember
  | attributeKind
  | attributeName
  | classKeyword
  | moduleKeyword
  | defKeyword
  | endKeyword
deriving DecidableEq, Repr

namespace Rule

/-- Every rule, in order. -/
def all : List Rule :=
  [finish, document, wholeType, wholeMethodTypes, wholeTypeParams, upperIdent, className,
   interfaceName, aliasName, varName, keywordName, typeExpr, unionType, intersectionType,
   optionalType, optionalMark, parenType, tupleType, procType, classType, interfaceType, aliasType,
   typeArgs, baseType, symbolLiteral, stringLiteral, integerLiteral, booleanLiteral, arrow,
   methodType, untypedParams, params, requiredParam, optionalParam, restParam, restKeywordsParam,
   keywordParam, block, typeParams, typeParam, unchecked, variance, upperBound, defaultType,
   classDecl, superclass, superclassMark, moduleDecl, selfTypes, selfTypesMark, selfType,
   methodMember, overloads, overloading, methodKind, visibility, methodName, mixinMember, mixinKind,
   attributeMember, attributeKind, attributeName, classKeyword, moduleKeyword, defKeyword,
   endKeyword]

theorem mem_all (rule : Rule) : rule ∈ all := by cases rule <;> decide

/-- What a rule is called in an error message. -/
def describe : Rule → String
  | typeExpr | optionalType | unionType | intersectionType => "a type"
  | methodType => "a method type (like `(Integer) -> String`)"
  | params | untypedParams => "a parameter list"
  | block => "a block (like `\x7b (Integer) -> void \x7d`)"
  | typeParams => "type parameters (like `[T]`)"
  | typeParam => "a type parameter"
  | typeArgs => "type arguments (like `[Integer]`)"
  | className => "a class name"
  | interfaceName => "an interface name"
  | methodName => "a method name"
  | endKeyword => "`end`"
  | finish => "end of input"
  | arrow => "`->`"
  | _ => "valid syntax"

end Rule

end Signet.Grammar
