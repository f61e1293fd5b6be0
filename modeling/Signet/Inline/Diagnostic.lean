import Signet.Reading.Error
import Signet.Signature.Basic

/-! # Diagnostics of extraction

What could not be taken over from a Ruby file, and why. A diagnostic never stops an extraction: the
declaration or annotation that it is about is left out and the rest goes on. Errors, in contrast,
stop it; no well-formed tree causes one.
-/

namespace Signet.Inline

/-- Constructs that have no declaration. -/
inductive Unsupported where
  | singletonClass
  | foreignSingletonMethod
  | mixinOfExpression (kind : MixinKind)
  | computedAttributeName
deriving DecidableEq, Repr

/-- What a construct is called. -/
def Unsupported.describe : Unsupported → String
  | singletonClass => "`class << self`"
  | foreignSingletonMethod => "singleton method on an object other than `self`"
  | mixinOfExpression kind => "`" ++ kind.keyword ++ "` of a non-constant expression"
  | computedAttributeName => "attribute name that is not a symbol or string literal"

/-- Why an annotation has no effect. -/
inductive Disuse where
  | danglingContinuation
  | secondList
  | secondResult
  | genericOnMethod
  | overridden
  | explicitTypes
  | colonTypes
  | documentedResult
  | noParameter (name : String)
  | leadingOnAttribute
  | notOnDeclaration
deriving DecidableEq, Repr

/-- The reason in words. -/
def Disuse.describe : Disuse → String
  | danglingContinuation => "`#|` continues no `#:` annotation"
  | secondList => "only one `@rbs` method type list is used"
  | secondResult => "the return type is already annotated"
  | genericOnMethod => "`@rbs generic` applies to classes and modules"
  | overridden => "`@rbs override` keeps the inherited method types"
  | explicitTypes => "method types are given explicitly"
  | colonTypes => "`#:` method types take precedence"
  | documentedResult => "the return type is already given by `@rbs return`"
  | noParameter name => "the method has no parameter `" ++ name ++ "`"
  | leadingOnAttribute => "attributes take their type from a trailing `#:` annotation"
  | notOnDeclaration => "only `@rbs generic` and `@rbs skip` apply to classes and modules"

/-- Why the text of an annotation has no meaning. -/
inductive AnnotationFault where
  | parse (error : ParseError)
  | unknown (payload : String)
deriving DecidableEq, Repr

/-- The fault in words. -/
def AnnotationFault.message : AnnotationFault → String
  | parse error => error.short
  | unknown payload => "unknown `@rbs` annotation `" ++ payload ++ "`"

/-- What a diagnostic is about. -/
inductive Problem where
  | nonConstantClassName (source : String)
  | nonConstantModuleName (source : String)
  | nonConstantSuperclassName (source : String)
  | topLevelMethod (name : String)
  | notImplemented (construct : Unsupported)
  | annotationSyntax (fault : AnnotationFault)
  | ineffective (reason : Disuse)
deriving DecidableEq, Repr

namespace Problem

/-- The wording. -/
def message : Problem → String
  | nonConstantClassName source => "Class name is not a constant path: `" ++ source ++ "`"
  | nonConstantModuleName source => "Module name is not a constant path: `" ++ source ++ "`"
  | nonConstantSuperclassName source => "Superclass is not a constant path: `" ++ source ++ "`"
  | topLevelMethod name => "Method `" ++ name ++ "` is defined outside of any class or module"
  | notImplemented construct => "Not supported yet: " ++ construct.describe
  | annotationSyntax fault => "Syntax error in annotation: " ++ fault.message
  | ineffective reason => "Annotation is not used: " ++ reason.describe

/-- The name. -/
def kind : Problem → String
  | nonConstantClassName _ => "NonConstantClassName"
  | nonConstantModuleName _ => "NonConstantModuleName"
  | nonConstantSuperclassName _ => "NonConstantSuperClassName"
  | topLevelMethod _ => "TopLevelMethodDefinition"
  | notImplemented _ => "NotImplementedYet"
  | annotationSyntax _ => "AnnotationSyntaxError"
  | ineffective _ => "UnusedInlineAnnotation"

/-- The names of all problems. -/
def kinds : List String :=
  ["NonConstantClassName", "NonConstantModuleName", "NonConstantSuperClassName",
   "TopLevelMethodDefinition", "NotImplementedYet", "AnnotationSyntaxError",
   "UnusedInlineAnnotation"]

theorem kind_mem_kinds (problem : Problem) : problem.kind ∈ kinds := by
  cases problem <;> simp [kind, kinds]

/-- The stable code. -/
def code : Problem → String
  | nonConstantClassName _ => "rbs::inline::non_constant_class_name"
  | nonConstantModuleName _ => "rbs::inline::non_constant_module_name"
  | nonConstantSuperclassName _ => "rbs::inline::non_constant_super_class_name"
  | topLevelMethod _ => "rbs::inline::top_level_method_definition"
  | notImplemented _ => "rbs::inline::not_implemented_yet"
  | annotationSyntax _ => "rbs::inline::annotation_syntax_error"
  | ineffective _ => "rbs::inline::unused_inline_annotation"

/-- Advice, where there is some. -/
def help : Problem → Option String
  | nonConstantClassName _ => some "Only `class Foo` and `class Foo::Bar` produce declarations"
  | nonConstantModuleName _ => some "Only `module Foo` and `module Foo::Bar` produce declarations"
  | nonConstantSuperclassName _ => some "The class is declared without a superclass"
  | topLevelMethod _ => some "Move the definition into a class or module to declare it"
  | notImplemented _ | annotationSyntax _ | ineffective _ => none

/-- What the label on the place says. -/
def label : Problem → String
  | nonConstantClassName _ | nonConstantModuleName _ | nonConstantSuperclassName _ =>
    "not a constant"
  | topLevelMethod _ => "top-level definition"
  | notImplemented _ => "skipped"
  | annotationSyntax fault => fault.message
  | ineffective _ => "ignored"

/-- Only an annotation without effect is a mere warning. -/
def severity : Problem → Severity
  | ineffective _ => .warning
  | _ => .error

end Problem

/-- A problem, where it is, and the bytes to label. -/
structure Diagnostic where
  problem : Problem
  location : Location .plain
  span : Span

namespace Diagnostic

/-- A problem with everything at a location. -/
def about (problem : Problem) (location : Location .plain) : Diagnostic :=
  ⟨problem, location, location.span⟩

/-- The text of an annotation cannot be read. The label is where reading stopped. -/
def unreadable (error : ParseError) (location : Location .plain) : Diagnostic :=
  ⟨.annotationSyntax (.parse error), location, error.span?.getD location.span⟩

/-- An annotation has no effect. -/
def unused (reason : Disuse) (location : Location .plain) : Diagnostic :=
  about (.ineffective reason) location

/-- The account of a diagnostic. -/
def report (diagnostic : Diagnostic) : Report :=
  let problem := diagnostic.problem
  { kind := problem.kind, message := problem.message, code := problem.code, help := problem.help
    labels := [⟨some problem.label, diagnostic.span⟩], severity := problem.severity }

/-- The wording behind the place where the location starts. -/
def headline (diagnostic : Diagnostic) : String :=
  let place := diagnostic.location.startPlace
  diagnostic.location.buffer.name ++ ":" ++ toString place.line ++ ":" ++ toString place.column
    ++ ": " ++ diagnostic.problem.message

end Diagnostic

/-! ## Errors -/

/-- What stops an extraction. -/
inductive InlineError where
  | conflictingAnnotations
  | nestingUnderflow
  | location (error : LocationError)
deriving DecidableEq, Repr

namespace InlineError

/-- The account of an error. -/
def report : InlineError → Report
  | conflictingAnnotations =>
    { kind := "ConflictingAnnotations"
      message := "Both a leading and a trailing return annotation reached the combinator"
      code := "rbs::inline::conflicting_annotations"
      help := some ("Annotation precedence must be resolved before building the annotation; "
        ++ "this is an internal error") }
  | nestingUnderflow =>
    { kind := "NestingUnderflow"
      message := "Nesting stack is empty when leaving a module"
      code := "rbs::inline::nesting_underflow" }
  | location error => error.report

end InlineError

end Signet.Inline
