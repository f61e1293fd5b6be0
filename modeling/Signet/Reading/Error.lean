import Signet.Grammar.Rule
import Signet.Source.Error

/-! # Errors of reading

A text is refused either by the grammar, at the place where it stops being grammatical, or because
something in a grammatical text has no meaning: a number too large, a key used twice, a parameter
out of order. Both are a *cause* at a place of the file.
-/

namespace Signet

open Grammar

/-- Why a text is refused. -/
inductive ParseCause where
  | unexpectedInput (expected : List Rule)
  | severalMethodTypes
  | invalidInteger (text : String)
  | duplicatedKeyword (name : String)
  | parameterOrder
  | malformed
deriving DecidableEq, Repr

/-- Equal neighbours of a list, once. -/
def withoutRepeats : List String → List String
  | first :: second :: rest =>
    if first = second then withoutRepeats (second :: rest)
    else first :: withoutRepeats (second :: rest)
  | rest => rest

namespace ParseCause

/-- What could have stood where the grammar stopped. -/
def expectation (expected : List Rule) : String :=
  if expected.isEmpty then "unexpected token"
  else "expected " ++ " or ".intercalate (withoutRepeats (expected.map Rule.describe))

/-- The wording without the kind of the error. -/
def short : ParseCause → String
  | unexpectedInput expected => expectation expected
  | severalMethodTypes => "expected a single method type"
  | invalidInteger text => "Invalid integer literal `" ++ text ++ "`"
  | duplicatedKeyword name => "Duplicated keyword parameter `" ++ name ++ "`"
  | parameterOrder => "Required positional parameter after optional or rest parameter"
  | malformed => "Unexpected grammar rule"

/-- The wording. -/
def message : ParseCause → String
  | unexpectedInput expected => "Syntax error: " ++ (unexpectedInput expected).short
  | severalMethodTypes => "Syntax error: " ++ severalMethodTypes.short
  | cause => cause.short

/-- The name. -/
def kind : ParseCause → String
  | unexpectedInput _ | severalMethodTypes => "SyntaxError"
  | invalidInteger _ => "InvalidInteger"
  | duplicatedKeyword _ => "DuplicatedKeyword"
  | parameterOrder => "ParameterOrder"
  | malformed => "UnexpectedRule"

/-- The stable code. -/
def code : ParseCause → String
  | unexpectedInput _ | severalMethodTypes => "rbs::parse::syntax_error"
  | invalidInteger _ => "rbs::parse::invalid_integer"
  | duplicatedKeyword _ => "rbs::parse::duplicated_keyword"
  | parameterOrder => "rbs::parse::parameter_order"
  | malformed => "rbs::parse::unexpected_rule"

/-- Advice, where there is some. -/
def help : ParseCause → Option String
  | unexpectedInput _ | severalMethodTypes => some "Check the syntax near the highlighted location"
  | invalidInteger _ => some "Integer literals must fit in a signed 64-bit integer"
  | parameterOrder =>
    some "Order parameters as: required, optional, rest, trailing, keywords, keyword rest"
  | duplicatedKeyword _ | malformed => none

/-- What the label on the place says. -/
def label : ParseCause → String
  | unexpectedInput _ | severalMethodTypes => "unexpected input"
  | invalidInteger _ => "invalid integer"
  | duplicatedKeyword _ => "declared again here"
  | parameterOrder => "misplaced parameter"
  | malformed => "found this"

end ParseCause

/-- A text is refused for a cause at a place, or the range to read does not exist. -/
inductive ParseError where
  | refused (cause : ParseCause) (span : Span)
  | location (error : LocationError)
deriving DecidableEq, Repr

namespace ParseError

/-- The wording without the kind of the error. -/
def short : ParseError → String
  | refused cause _ => cause.short
  | location error => error.message

/-- The place in the file, if the error has one. -/
def span? : ParseError → Option Span
  | refused _ span => some span
  | location _ => none

/-- The account of an error. -/
def report : ParseError → Report
  | refused cause span =>
    { kind := cause.kind, message := cause.message, code := cause.code, help := cause.help
      labels := [⟨some cause.label, span⟩] }
  | location error => error.report

end ParseError

/-- A cause and the range of the text that is at fault. -/
structure Fault where
  cause : ParseCause
  range : Range
deriving DecidableEq, Repr

end Signet
