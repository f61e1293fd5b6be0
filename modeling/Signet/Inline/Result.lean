import Signet.Environment.Ancestry
import Signet.Inline.Extraction

/-! # Results of an extraction

The declarations of a Ruby file, each with the context in which it was found, and what could not be
declared. A result can be inserted into an environment next to declarations from elsewhere.
-/

namespace Signet.Inline

open Ruby

/-- What a Ruby file declares. -/
structure InlineResult where
  buffer : Buffer
  records : List Record
  diagnostics : List Diagnostic

/-- Extracts the declarations of a file from its tree. -/
def extract (buffer : Buffer) (root : Node) (options : Options) :
    Except InlineError InlineResult :=
  let file : RubyFile := { buffer, comments := .ofTree buffer root, options }
  let (result, progress) := (visitAll file root.kind root.children).run {}
  result.map fun _ =>
    { buffer
      records := progress.slots.filterMap id
      diagnostics := progress.diagnostics }

namespace InlineResult

/-- Nothing had to be left out. -/
def isClean (result : InlineResult) : Bool := result.diagnostics.isEmpty

/-- How many diagnostics have a problem of a kind. -/
def count (result : InlineResult) (kind : String) : Nat :=
  result.diagnostics.countP fun diagnostic => diagnostic.problem.kind = kind

mutual

/-- The methods of a declaration and of those nested in it, each in the context inside its class or
module. -/
def methodsOf (context : Context) : Declaration → List (Context × Method)
  | ⟨heading, members⟩ => methodsAmong (context.enter (context.qualify heading.name)) members

/-- The methods among some members. -/
def methodsAmong (context : Context) : List Member → List (Context × Method)
  | [] => []
  | .method method :: members => (context, method) :: methodsAmong context members
  | .nested declaration :: members => methodsOf context declaration ++ methodsAmong context members
  | _ :: members => methodsAmong context members

end

/-- Every method of the file, in the context of the module that has it. -/
def methods (result : InlineResult) : List (Context × Method) :=
  result.records.flatMap fun record => methodsOf record.context record.declaration

/-- Inserts the declarations of a file into an environment. -/
def load (result : InlineResult) : Update Unit := Environment.insertRecords result.records

end InlineResult

end Signet.Inline
