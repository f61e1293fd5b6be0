import Signet.Inline.Parameters

/-! # Overloads of a method

Several annotations may speak about the types of one method. An override keeps the types that the
method has elsewhere. Otherwise `#:` method types come first, then a list of method types, then the
annotations of the result and of the parameters. Every annotation that loses is reported.
-/

namespace Signet.Inline

open Ruby

/-- Method types and where they are written. -/
structure WrittenTypes where
  types : List MethodType
  location : Location .plain

/-- An annotation that has no effect, and why. -/
structure Ignored where
  location : Location .plain
  reason : Disuse

/-- The annotations of a method by what they speak about. Of lists and results the first counts. -/
structure Sorted where
  colons : List WrittenTypes := []
  list : Option WrittenTypes := none
  result : Option TypeAnnotation := none
  params : ParamAnnotations := []
  ignored : List Ignored := []

namespace Sorted

/-- Notes that an annotation has no effect. -/
def ignore (sorted : Sorted) (location : Location .plain) (reason : Disuse) : Sorted :=
  { sorted with ignored := sorted.ignored ++ [⟨location, reason⟩] }

/-- Sorts one annotation. -/
def add (sorted : Sorted) : Annotation → Sorted
  | .colon types location => { sorted with colons := sorted.colons ++ [⟨types, location⟩] }
  | .overloads types location =>
    if sorted.list.isSome then sorted.ignore location .secondList
    else { sorted with list := some ⟨types, location⟩ }
  | .result note =>
    if sorted.result.isSome then sorted.ignore note.location .secondResult
    else { sorted with result := some note }
  | .param name note => { sorted with params := sorted.params ++ [(name, note)] }
  | .generic _ location => sorted.ignore location .genericOnMethod
  | .skip _ | .override _ => sorted

/-- Sorts the annotations of a method. -/
def ofAnnotations (annotations : List Annotation) : Sorted := annotations.foldl add {}

/-- Some annotation gives whole method types. -/
def isExplicit (sorted : Sorted) : Bool := !sorted.colons.isEmpty || sorted.list.isSome

/-- Annotations of the result and the parameters, which have no effect beside whole method
types. -/
def lesser (sorted : Sorted) (trailing : Option TypeAnnotation) (reason : Disuse) :
    List Ignored :=
  (sorted.result.toList ++ trailing.toList ++ sorted.params.map (·.2)).map fun note =>
    ⟨note.location, reason⟩

end Sorted

/-- The overloads that annotations decide, and the annotations that have no effect. -/
structure Decision where
  overloads : List MethodType
  ignored : List Ignored

/-- An override decides for no overloads here. -/
def decideOverride (sorted : Sorted) (trailing : Option TypeAnnotation) : Decision where
  overloads := []
  ignored := sorted.ignored
    ++ (sorted.colons ++ sorted.list.toList).map (fun written => ⟨written.location, .overridden⟩)
    ++ sorted.lesser trailing .overridden

/-- Whole method types decide: `#:` before a list. -/
def decideExplicit (sorted : Sorted) (trailing : Option TypeAnnotation) : Decision :=
  let lists := sorted.list.toList
  let (used, lost) := if sorted.colons.isEmpty then (lists, []) else (sorted.colons, lists)
  { overloads := used.flatMap (·.types)
    ignored := sorted.ignored
      ++ lost.map (fun written => ⟨written.location, .colonTypes⟩)
      ++ sorted.lesser trailing .explicitTypes }

/-- The trailing annotation of the result, unless the result is annotated above the method. -/
def usableTrailing (sorted : Sorted) (trailing : Option TypeAnnotation) :
    Option TypeAnnotation × List Ignored :=
  match sorted.result, trailing with
  | some _, some note =>
    (none, sorted.ignored ++ [⟨note.location, .documentedResult⟩])
  | _, trailing => (trailing, sorted.ignored)

/-- The method type that the parameter list and the annotations of parameters and result give. -/
def draftType (params : List RubyParam) (annotations : ParamAnnotations)
    (result : Option TypeAnnotation) : MethodType × List Ignored :=
  let draft := Draft.ofParams annotations params
  let type := (result.map (·.type)).getD .untyped
  (draft.methodType type, draft.unused.map fun note =>
    ⟨note.2.location, .noParameter note.1⟩)

/-- Parameters and result decide. A method without any annotation is not checked. -/
def decideByParts (sorted : Sorted) (trailing : Option TypeAnnotation) (params : List RubyParam) :
    Except InlineError Decision := do
  let (trailing, ignored) := usableTrailing sorted trailing
  let result ← combineResults sorted.result trailing
  if sorted.params.isEmpty && result.isNone then
    return { overloads := [.untyped], ignored }
  let (type, unused) := draftType params sorted.params result
  return { overloads := [type], ignored := ignored ++ unused }

/-- The overloads of a method. -/
def decideOverloads (annotations : List Annotation) (trailing : Option TypeAnnotation)
    (overriding : Bool) (params : List RubyParam) : Except InlineError Decision :=
  let sorted := Sorted.ofAnnotations annotations
  if overriding then .ok (decideOverride sorted trailing)
  else if sorted.isExplicit then .ok (decideExplicit sorted trailing)
  else decideByParts sorted trailing params

end Signet.Inline
