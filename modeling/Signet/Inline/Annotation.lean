import Signet.Inline.Diagnostic
import Signet.Reading.Document
import Signet.Ruby.Comments

/-! # Annotation comments

A comment line above a definition is one of four things:

* `#:` starts a method type, and `#|` continues the one on the line before;
* `# @rbs` and a blank start a *directive*: `skip`, `override`, `generic` with type parameters, a
  name with a colon and a type, or a list of method types;
* everything else is documentation.

Only the text of the annotation is read, from a buffer carved out of the file, so every location in
what was read still leads to the file. Lines that belong together are read as one *group*: a method
type stays pending as long as lines continue it (`readLines`).
-/

namespace Signet.Inline

open Text Ruby

/-- A type and the location of its text. -/
structure TypeAnnotation where
  type : Ty
  location : Location .plain

/-- What an annotation says. -/
inductive Annotation where
  | result (note : TypeAnnotation)
  | param (name : String) (note : TypeAnnotation)
  | skip (location : Location .plain)
  | override (location : Location .plain)
  | generic (param : TypeParam) (location : Location .plain)
  | overloads (types : List MethodType) (location : Location .plain)
  | colon (types : List MethodType) (location : Location .plain)

namespace Annotation

/-- Where the annotation is. -/
def location : Annotation → Location .plain
  | result note => note.location
  | param _ note => note.location
  | skip location => location
  | override location => location
  | generic _ location => location
  | overloads _ location => location
  | colon _ location => location

/-- The annotation leaves the definition out. -/
def isSkip : Annotation → Bool
  | skip _ => true
  | _ => false

/-- The annotation keeps the types that the method has elsewhere. -/
def isOverride : Annotation → Bool
  | override _ => true
  | _ => false

end Annotation

/-- The one annotation of a result out of a leading and a trailing one. There must not be both. -/
def combineResults (leading trailing : Option TypeAnnotation) :
    Except InlineError (Option TypeAnnotation) :=
  match leading, trailing with
  | some _, some _ => .error .conflictingAnnotations
  | leading, trailing => .ok (leading.or trailing)

/-! ## Lines -/

/-- What a comment line is, with the range of what it says. -/
inductive LineKind where
  | colon (payload : Range)
  | continuation (payload : Range)
  | directive (payload : Range)
  | doc (text : List Char)

/-- The word that starts a directive. -/
def directiveWord : List Char := ['@', 'r', 'b', 's']

/-- What follows the word of a directive in a text, if the text is one. -/
def afterDirectiveWord? (text : List Char) : Option (List Char) :=
  if directiveWord.isPrefixOf text then
    let rest := text.drop directiveWord.length
    if (rest.head?.map isBlank).getD true then some rest else none
  else none

/-- A line of documentation: one space after the marker does not count, nor do blanks at the
end. -/
def docText (body : List Char) : List Char :=
  trimEnd (if body.head? = some ' ' then body.drop 1 else body)

/-- What a comment line is, from the text after its marker. A bar belongs to the payload, where it
separates overloads. -/
def classifyBody (range : Range) (body : List Char) : LineKind :=
  match body with
  | ':' :: _ => .colon ⟨range.start + 2, range.stop⟩
  | '|' :: _ => .continuation ⟨range.start + 1, range.stop⟩
  | body =>
    let trimmed := trimStart body
    match afterDirectiveWord? trimmed with
    | some _ =>
      let skipped := body.length - trimmed.length
      .directive ⟨range.start + 1 + skipped + directiveWord.length, range.stop⟩
    | none => .doc (docText body)

/-- What a comment line is. -/
def classify (buffer : Buffer) (comment : CommentLine) : LineKind :=
  classifyBody (comment.range buffer) ((comment.text buffer).drop 1)

/-! ## Groups -/

/-- Lines that belong together. A method type has at least one line. -/
inductive Group where
  | methodType (first : Range) (more : List Range)
  | dangling (payload : Range)
  | directive (payload : Range)
  | doc (text : List Char) (range : Range)

/-! ## Directives -/

/-- The number of characters up to and with the colon, if a text starts with a name and a colon.
Marks of a rest or block parameter may stand before the name, spaces after it. -/
def keyLength? (payload : List Char) : Option Nat :=
  let isSigil := fun c => c = '*' || c = '&'
  let sigils := (payload.takeWhile isSigil).length
  let rest := payload.dropWhile isSigil
  if (rest.head?.map isLowerStart).getD false then
    let ident := (rest.takeWhile isIdentChar).length
    let after := rest.drop ident
    let spaces := (after.takeWhile (· = ' ')).length
    if (after.drop spaces).head? = some ':' then some (sigils + ident + spaces + 1) else none
  else none

/-- What introduces a description after a type. -/
def descriptionMark : List Char := [' ', '-', '-', ' ']

/-- The number of characters before the description, if there is one. -/
def descriptionStart? : List Char → Option Nat
  | [] => none
  | c :: text =>
    if descriptionMark.isPrefixOf (c :: text) then some 0
    else (descriptionStart? text).map (· + 1)

/-- A name without the marks of a rest or block parameter. -/
def withoutSigils (name : List Char) : List Char := name.dropWhile fun c => c = '*' || c = '&'

/-- What a directive is, with the range of what is left to read. -/
inductive Directive where
  | skip
  | override
  | generic (params : Range)
  | typed (name : List Char) (type : Range)
  | overloads
  | unknown

/-- What a text must start with to be a list of method types. -/
def methodTypeMarks : List Char := ['(', '[', '\x7b', '?', '-', '^']

/-- What a directive is, from its text and the range that the text has. -/
def Directive.ofPayload (range : Range) (payload : List Char) : Directive :=
  let word := "generic".toList
  let afterWord := payload.drop word.length
  if payload = "skip".toList then .skip
  else if payload = "override".toList then .override
  else if word.isPrefixOf payload && (afterWord.head?.map isBlank).getD false then
    .generic ⟨range.start + word.length, range.stop⟩
  else match keyLength? payload with
    | some length =>
      let start := range.start + length
      let stop := match descriptionStart? (payload.drop length) with
        | some before => start + before
        | none => range.stop
      .typed (trimEnd (payload.take (length - 1))) ⟨start, stop⟩
    | none =>
      if (payload.head?.map methodTypeMarks.contains).getD false then .overloads else .unknown

/-! ## Reading -/

/-- The range without white space at either end. -/
def trimRange (buffer : Buffer) (range : Range) : Except LocationError Range := do
  let text ← buffer.slice range
  let start := range.start + (text.takeWhile isBlank).length
  return ⟨start, start + (trim text).length⟩

/-- Reads a range through a buffer carved out for it. A text that cannot be read is a
diagnostic at a location. -/
def readPayload {α : Type} (buffer : Buffer) (ranges : List Range) (location : Location .plain)
    (read : Buffer → Range → Except ParseError α) :
    Except LocationError (Except Diagnostic α) := do
  let payload ← buffer.carve ranges
  return (read payload payload.all).mapError (Diagnostic.unreadable · location)

/-- Reads the type in a range. -/
def readTypeAnnotation (buffer : Buffer) (scope : List String) (range : Range) :
    Except LocationError (Except Diagnostic TypeAnnotation) := do
  let range ← trimRange buffer range
  let location ← Location.ofRange buffer range
  let type ← readPayload buffer [range] location fun payload all => readType payload all scope
  return type.map fun type => { type, location }

/-- Reads a directive: its annotations, or why it has none. -/
def readDirective (buffer : Buffer) (scope : List String) (range : Range) :
    Except LocationError (Except Diagnostic (List Annotation)) := do
  let range ← trimRange buffer range
  let payload ← buffer.slice range
  match Directive.ofPayload range payload with
  | .skip => return .ok [.skip (← Location.ofRange buffer range)]
  | .override => return .ok [.override (← Location.ofRange buffer range)]
  | .generic range =>
    let location ← Location.ofRange buffer range
    let params ← readPayload buffer [range] location fun payload all => readGenerics payload all []
    return params.map (·.map (.generic · location))
  | .typed name range =>
    let note ← readTypeAnnotation buffer scope range
    return note.map fun note =>
      if name = "return".toList then [.result note]
      else [.param (String.ofList (withoutSigils name)) note]
  | .overloads =>
    let location ← Location.ofRange buffer range
    let types ← readPayload buffer [range] location fun payload all =>
      readOverloads payload all scope
    return types.map fun types => [.overloads types location]
  | .unknown =>
    let location ← Location.ofRange buffer range
    let fault := AnnotationFault.unknown (String.ofList payload)
    return .error (.about (.annotationSyntax fault) location)

/-- Reads a group: its annotations, or why it has none. Documentation has none. -/
def Group.read (buffer : Buffer) (scope : List String) :
    Group → Except LocationError (Except Diagnostic (List Annotation))
  | .methodType first more => do
    let location ← Location.ofRange buffer (first.through (more.getLastD first))
    let types ← readPayload buffer (first :: more) location fun payload all =>
      readOverloads payload all scope
    return types.map fun types => [.colon types location]
  | .dangling payload => do
    return .error (.unused .danglingContinuation (← Location.ofRange buffer payload))
  | .directive payload => readDirective buffer scope payload
  | .doc .. => return .ok []

/-! ## Blocks -/

/-- What the comments above a definition say. -/
structure LeadingBlock where
  annotations : List Annotation := []
  doc : Option Comment := none
  diagnostics : List Diagnostic := []

namespace LeadingBlock

/-- The definition is left out. -/
def isSkipped (block : LeadingBlock) : Bool := block.annotations.any Annotation.isSkip

/-- The method keeps the types that it has elsewhere. -/
def isOverride (block : LeadingBlock) : Bool := block.annotations.any Annotation.isOverride

/-- The block with what a group says. -/
def add (block : LeadingBlock) : Except Diagnostic (List Annotation) → LeadingBlock
  | .ok annotations => { block with annotations := block.annotations ++ annotations }
  | .error diagnostic => { block with diagnostics := block.diagnostics ++ [diagnostic] }

end LeadingBlock

/-- What the lines of a block have said so far. -/
structure BlockProgress where
  block : LeadingBlock := {}
  docLines : List (List Char) := []
  docRange : Option Range := none

namespace BlockProgress

/-- The progress with a line of documentation, which reaches from its first line to its last. -/
def addDoc (progress : BlockProgress) (text : List Char) (range : Range) : BlockProgress :=
  let docRange := match progress.docRange with
    | some existing => existing.through range
    | none => range
  { progress with docLines := progress.docLines ++ [text], docRange := some docRange }

variable (buffer : Buffer) (scope : List String)

/-- The progress with a group read. -/
def read (progress : BlockProgress) : Group → Except LocationError BlockProgress
  | .doc text range => return progress.addDoc text range
  | group => return { progress with block := progress.block.add (← group.read buffer scope) }

/-- The progress with a pending method type read, if there is one. -/
def flush (progress : BlockProgress) :
    Option (Range × List Range) → Except LocationError BlockProgress
  | some (first, more) => progress.read buffer scope (.methodType first more)
  | none => return progress

/-- The block with its documentation, which has no white space at the end. -/
def finish (progress : BlockProgress) : Except LocationError LeadingBlock := do
  match progress.docRange with
  | some range =>
    let text := trimEnd (['\n'].intercalate progress.docLines)
    let location ← Location.ofRange buffer range
    return { progress.block with doc := some { text := String.ofList text, location } }
  | none => return progress.block

/-- Reads line after line. A method type is pending until a line does not continue it; then, and at
the end, it is read. -/
def readLines (pending : Option (Range × List Range)) (progress : BlockProgress) :
    List CommentLine → Except LocationError BlockProgress
  | [] => progress.flush buffer scope pending
  | comment :: comments => do
    match classify buffer comment with
    | .continuation payload =>
      match pending with
      | some (first, more) => readLines (some (first, more ++ [payload])) progress comments
      | none => readLines none (← progress.read buffer scope (.dangling payload)) comments
    | .colon payload =>
      readLines (some (payload, [])) (← progress.flush buffer scope pending) comments
    | .directive payload =>
      let progress ← progress.flush buffer scope pending
      readLines none (← progress.read buffer scope (.directive payload)) comments
    | .doc text =>
      let progress ← progress.flush buffer scope pending
      readLines none (← progress.read buffer scope (.doc text (comment.range buffer))) comments

end BlockProgress

/-- Reads the comments above a definition. -/
def readLeading (buffer : Buffer) (scope : List String) (comments : List CommentLine) :
    Except LocationError LeadingBlock := do
  let progress ← BlockProgress.readLines buffer scope none {} comments
  progress.finish buffer

/-! ## Trailing comments -/

/-- What a comment after a definition says. -/
inductive Trailing where
  | absent
  | assertion (note : TypeAnnotation)
  | invalid (diagnostic : Diagnostic)

/-- Reads a comment after a definition: only `#:` says something there. -/
def readTrailing (buffer : Buffer) (scope : List String) (comment : CommentLine) :
    Except LocationError Trailing := do
  match classify buffer comment with
  | .colon payload =>
    match ← readTypeAnnotation buffer scope payload with
    | .ok note => return .assertion note
    | .error diagnostic => return .invalid diagnostic
  | _ => return .absent

end Signet.Inline
