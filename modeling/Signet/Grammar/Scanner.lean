import Signet.Text.Alphanumeric

/-! # Tokens

A *scanner* reads one token off the front of a text: it returns what is left, or nothing if the
text does not start with such a token. Scanners skip nothing: a token has no blanks inside, except
quoted ones. Each is determined by the text alone, so the same text always has the same token.
-/

namespace Signet.Grammar

open Text

/-- Reads a token and returns what is left. -/
abbrev Scanner := List Char → Option (List Char)

namespace Scanner

/-! ## Parts of tokens -/

/-- A given text. -/
def word (expected : List Char) : Scanner := fun text =>
  if expected.isPrefixOf text then some (text.drop expected.length) else none

/-- One character of a class. -/
def one (p : Char → Bool) : Scanner
  | c :: text => if p c then some text else none
  | [] => none

/-- As many characters of a class as there are. -/
def run (p : Char → Bool) : Scanner := fun text => some (text.dropWhile p)

/-- One token right after another. -/
def andThen (first second : Scanner) : Scanner := fun text => first text >>= second

/-- The first of two tokens that the text starts with. -/
def orElse (first second : Scanner) : Scanner := fun text => (first text).or (second text)

/-- A token that may be missing. -/
def maybe (scanner : Scanner) : Scanner := fun text => (scanner text).or (some text)

/-- A token as often as it is there, at most a given number of times. -/
def upTo (scanner : Scanner) : Nat → List Char → List Char
  | 0, text => text
  | count + 1, text =>
    match scanner text with
    | some rest => upTo scanner count rest
    | none => text

/-- A token as often as it is there. A token has at least one character, so the length of the text
bounds the number of times. -/
def many (scanner : Scanner) : Scanner := fun text => some (upTo scanner text.length text)

/-- The identifier characters that a text starts with. -/
def identRun (text : List Char) : List Char := text.takeWhile isIdentChar

/-- One of the given words, not continued by an identifier character. -/
def wholeWord (words : List String) : Scanner := fun text =>
  if words.contains (String.ofList (identRun text)) then some (text.dropWhile isIdentChar) else none

/-- The first of the given texts that the text starts with. -/
def firstOf (words : List String) : Scanner :=
  words.foldr (fun expected rest => orElse (word expected.toList) rest) fun _ => none

/-- Text between two marks: everything up to the next mark. -/
def between (mark : Char) : Scanner := fun text =>
  match text with
  | c :: text =>
    if c = mark then
      match text.dropWhile (· ≠ mark) with
      | _ :: rest => some rest
      | [] => none
    else none
  | [] => none

/-! ## Identifiers and names -/

/-- The separator of the components of a name. -/
def separator : Scanner := word [':', ':']

/-- An identifier that starts with a capital. -/
def upperIdent : Scanner := andThen (one Char.isUpper) (run isIdentChar)

/-- An identifier that starts with a lower-case letter or an underscore. -/
def lowerIdent : Scanner := andThen (one isLowerStart) (run isIdentChar)

/-- An underscore, then a capital. -/
def interfaceIdent : Scanner :=
  andThen (word ['_']) (andThen (one Char.isUpper) (run isIdentChar))

/-- The name of a class. After each separator another component must follow to be part of it. -/
def className : Scanner :=
  andThen (maybe separator) (andThen upperIdent (many (andThen separator upperIdent)))

/-- The modules in front of the last component of a name. -/
def qualifier : Scanner := andThen (maybe separator) (many (andThen upperIdent separator))

/-- The name of an interface. -/
def interfaceName : Scanner := andThen qualifier interfaceIdent

/-- Words that start or end a declaration or a member. -/
def reservedWords : List String :=
  ["class", "module", "def", "end", "include", "extend", "prepend", "attr_reader", "attr_writer",
   "attr_accessor", "public", "private"]

/-- A lower-case identifier that is not a reserved word. -/
def varName : Scanner := fun text =>
  if (wholeWord reservedWords text).isSome then none else lowerIdent text

/-- The name of an alias. -/
def aliasName : Scanner := andThen qualifier varName

/-- The text goes on with a single colon. -/
def colonAhead : List Char → Bool
  | ':' :: ':' :: _ => false
  | ':' :: _ => true
  | _ => false

/-- The key of a keyword parameter: an identifier in front of a single colon. -/
def keywordName : Scanner := fun text =>
  match orElse lowerIdent upperIdent text with
  | some rest => if colonAhead rest then some rest else none
  | none => none

/-! ## Types -/

/-- The keyword of a base type. -/
def baseType : Scanner :=
  wholeWord ["boolish", "bool", "void", "untyped", "nil", "top", "bot", "self", "instance", "class"]

/-- A letter or an underscore. -/
def isIdentStart (c : Char) : Bool := c.isAlpha || c = '_'

/-- The mark that a Ruby method name may end with. -/
def isNameMark (c : Char) : Bool := c = '?' || c = '!' || c = '='

/-- An identifier with an optional mark. -/
def markedIdent : Scanner :=
  andThen (one isIdentStart) (andThen (run isIdentChar) (maybe (one isNameMark)))

/-- A symbol: a colon and a marked identifier. -/
def symbolLiteral : Scanner := andThen (word [':']) markedIdent

/-- A string between double or single quotes; there are no escapes. -/
def stringLiteral : Scanner := orElse (between '"') (between '\'')

/-- A digit, or an underscore between digits. -/
def isDigitOrBar (c : Char) : Bool := c.isDigit || c = '_'

/-- A whole number. -/
def integerLiteral : Scanner :=
  andThen (maybe (word ['-'])) (andThen (one Char.isDigit) (run isDigitOrBar))

/-- A truth value. -/
def booleanLiteral : Scanner := wholeWord ["true", "false"]

/-! ## Members -/

/-- The operators that are method names. Where one starts with another the longer comes first. -/
def operators : List String :=
  ["[]=", "[]", "===", "==", "=~", "!=", "!~", "<=>", "<=", ">=", "<<", ">>", "<", ">", "+@", "-@",
   "**", "+", "-", "*", "/", "%", "!", "~", "&", "|", "^"]

/-- The mark around a quoted method name. -/
def backtick : Char := '\x60'

/-- A quoted name: at least one character between backticks. -/
def quotedName : Scanner := fun text =>
  match text with
  | _ :: second :: _ => if second = backtick then none else between backtick text
  | _ => none

/-- The name of a method: quoted, an operator, or a marked identifier. -/
def methodName : Scanner := orElse quotedName (orElse (firstOf operators) markedIdent)

/-- The name of an attribute. -/
def attributeName : Scanner := andThen (one isIdentStart) (run isIdentChar)

/-- The mark of a singleton method. -/
def methodKind : Scanner := firstOf ["self?.", "self."]

/-! ## The end -/

/-- Nothing is left. -/
def finish : Scanner := fun text => if text.isEmpty then some text else none

end Scanner

end Signet.Grammar
