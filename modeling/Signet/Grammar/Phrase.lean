import Signet.Grammar.Rule
import Signet.Grammar.Scanner

/-! # The signature grammar

A rule is either a token, read by a scanner, or a *phrase* of marks and other rules. Blanks and
comments may stand between any two items of a phrase, and between the repetitions of one. Choices
are ordered: the first alternative that matches is taken, and no other is tried afterwards.
-/

namespace Signet.Grammar

/-- What a rule is made of. -/
inductive Phrase where
  | nothing
  | mark (text : List Char)
  | call (rule : Rule)
  | seq (first second : Phrase)
  | alt (first second : Phrase)
  | opt (phrase : Phrase)
  | many (phrase : Phrase)

/-- How a rule reads: as one token or as a phrase. -/
inductive Body where
  | token (scanner : Scanner)
  | phrase (phrase : Phrase)

namespace Phrase

/-- Items in sequence. -/
def inOrder : List Phrase → Phrase
  | [] => nothing
  | [phrase] => phrase
  | phrase :: phrases => seq phrase (inOrder phrases)

/-- One of several rules, tried in order. -/
def oneOf (first : Rule) (others : List Rule) : Phrase :=
  match others with
  | [] => call first
  | second :: rest => alt (call first) (oneOf second rest)

/-- At least one item, with marks in between. -/
def separated (item : Phrase) (between : List Char) : Phrase :=
  seq item (many (seq (mark between) item))

/-- A whole text: nothing may follow. -/
def whole (phrase : Phrase) : Phrase := inOrder [nothing, phrase, call .finish]

/-- A type without optional mark. -/
def primaryType : Phrase :=
  oneOf .parenType [.tupleType, .procType, .symbolLiteral, .stringLiteral, .integerLiteral,
    .booleanLiteral, .baseType, .interfaceType, .classType, .aliasType]

/-- The parameters of a function, checked or not. -/
def parameterList : Phrase := oneOf .untypedParams [.params]

/-- A parameter of any role. -/
def param : Phrase :=
  oneOf .restKeywordsParam [.restParam, .keywordParam, .optionalParam, .requiredParam]

/-- Parameters, block and result of a function. -/
def signature : List Phrase :=
  [opt parameterList, opt (call .block), call .arrow, call .optionalType]

/-- A type and perhaps the name of the parameter. -/
def positional : List Phrase := [call .typeExpr, opt (call .varName)]

/-- A name that may be applied to type arguments. -/
def applied (name : Phrase) : Phrase := seq name (opt (call .typeArgs))

/-- The name of a class or an interface. -/
def mixinName : Phrase := oneOf .interfaceName [.className]

/-- A class or a module. -/
def declaration : Phrase := oneOf .classDecl [.moduleDecl]

/-- A member of a class or a module. -/
def member : Phrase :=
  oneOf .classDecl [.moduleDecl, .methodMember, .mixinMember, .attributeMember]

end Phrase

open Phrase Scanner in
/-- What each rule reads. -/
def Rule.body : Rule → Body
  | .finish => .token Scanner.finish
  | .document => .phrase (whole (many declaration))
  | .wholeType => .phrase (whole (call .typeExpr))
  | .wholeMethodTypes => .phrase (whole (separated (call .methodType) ['|']))
  | .wholeTypeParams => .phrase (whole (separated (call .typeParam) [',']))
  | .upperIdent => .token Scanner.upperIdent
  | .className => .token Scanner.className
  | .interfaceName => .token Scanner.interfaceName
  | .aliasName => .token Scanner.aliasName
  | .varName => .token Scanner.varName
  | .keywordName => .token Scanner.keywordName
  | .typeExpr => .phrase (call .unionType)
  | .unionType => .phrase (separated (call .intersectionType) ['|'])
  | .intersectionType => .phrase (separated (call .optionalType) ['&'])
  | .optionalType => .phrase (seq primaryType (Phrase.many (call .optionalMark)))
  | .optionalMark => .phrase (mark ['?'])
  | .parenType => .phrase (inOrder [mark ['('], call .typeExpr, mark [')']])
  | .tupleType =>
    .phrase (inOrder [mark ['['], opt (separated (call .typeExpr) [',']), mark [']']])
  | .procType => .phrase (inOrder (mark ['^'] :: signature))
  | .classType => .phrase (applied (call .className))
  | .interfaceType => .phrase (applied (call .interfaceName))
  | .aliasType => .phrase (applied (call .aliasName))
  | .typeArgs => .phrase (inOrder [mark ['['], separated (call .typeExpr) [','], mark [']']])
  | .baseType => .token Scanner.baseType
  | .symbolLiteral => .token Scanner.symbolLiteral
  | .stringLiteral => .token Scanner.stringLiteral
  | .integerLiteral => .token Scanner.integerLiteral
  | .booleanLiteral => .token Scanner.booleanLiteral
  | .arrow => .phrase (mark ['-', '>'])
  | .methodType => .phrase (inOrder (opt (call .typeParams) :: signature))
  | .untypedParams => .phrase (inOrder [mark ['('], mark ['?'], mark [')']])
  | .params => .phrase (inOrder [mark ['('], opt (separated param [',']), mark [')']])
  | .requiredParam => .phrase (inOrder positional)
  | .optionalParam => .phrase (inOrder (mark ['?'] :: positional))
  | .restParam => .phrase (inOrder (mark ['*'] :: positional))
  | .restKeywordsParam => .phrase (inOrder (mark ['*', '*'] :: positional))
  | .keywordParam =>
    .phrase (inOrder ([opt (call .optionalMark), call .keywordName, mark [':']] ++ positional))
  | .block =>
    .phrase (inOrder [opt (call .optionalMark), mark ['\x7b'], opt parameterList, call .arrow,
      call .optionalType, mark ['\x7d']])
  | .typeParams => .phrase (inOrder [mark ['['], separated (call .typeParam) [','], mark [']']])
  | .typeParam =>
    .phrase (inOrder [opt (call .unchecked), opt (call .variance), call .upperIdent,
      opt (call .upperBound), opt (call .defaultType)])
  | .unchecked => .token (wholeWord ["unchecked"])
  | .variance => .token (wholeWord ["in", "out"])
  | .upperBound => .phrase (inOrder [mark ['<'], call .typeExpr])
  | .defaultType => .phrase (inOrder [mark ['='], call .typeExpr])
  | .classDecl =>
    .phrase (inOrder [call .classKeyword, call .className, opt (call .typeParams),
      opt (call .superclass), Phrase.many member, call .endKeyword])
  | .superclass => .phrase (seq (call .superclassMark) (applied (call .className)))
  | .superclassMark => .phrase (mark ['<'])
  | .moduleDecl =>
    .phrase (inOrder [call .moduleKeyword, call .className, opt (call .typeParams),
      opt (call .selfTypes), Phrase.many member, call .endKeyword])
  | .selfTypes => .phrase (seq (call .selfTypesMark) (separated (call .selfType) [',']))
  | .selfTypesMark => .phrase (mark [':'])
  | .selfType => .phrase (applied mixinName)
  | .methodMember =>
    .phrase (inOrder [opt (call .visibility), call .defKeyword, opt (call .methodKind),
      call .methodName, mark [':'], call .overloads])
  | .overloads =>
    .phrase (alt (call .overloading)
      (seq (separated (call .methodType) ['|']) (opt (seq (mark ['|']) (call .overloading)))))
  | .overloading => .phrase (mark ['.', '.', '.'])
  | .methodKind => .token Scanner.methodKind
  | .visibility => .token (wholeWord ["public", "private"])
  | .methodName => .token Scanner.methodName
  | .mixinMember => .phrase (seq (call .mixinKind) (applied mixinName))
  | .mixinKind => .token (wholeWord ["include", "extend", "prepend"])
  | .attributeMember =>
    .phrase (inOrder [call .attributeKind, call .attributeName, mark [':'], call .typeExpr])
  | .attributeKind => .token (wholeWord ["attr_reader", "attr_writer", "attr_accessor"])
  | .attributeName => .token Scanner.attributeName
  | .classKeyword => .token (wholeWord ["class"])
  | .moduleKeyword => .token (wholeWord ["module"])
  | .defKeyword => .token (wholeWord ["def"])
  | .endKeyword => .token (wholeWord ["end"])

end Signet.Grammar
