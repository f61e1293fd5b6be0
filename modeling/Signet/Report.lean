import Signet.Source.Range

/-! # Reports

What is told about a failure, whatever its cause: one line of text, a stable code, advice where
there is some, and labels on the bytes of the file that it is about. Each type of errors and
diagnostics has a function `report` that gives its wording in one place.
-/

namespace Signet

/-- A mark on part of the file, with or without a text. -/
structure Label where
  text : Option String
  span : Span
deriving DecidableEq, Repr

/-- A warning does not stand in the way of using the result. -/
inductive Severity where
  | error
  | warning
deriving DecidableEq, Repr

/-- The account of one failure. The kind names its cause, the code does so for tools. -/
structure Report where
  kind : String
  message : String
  code : String
  help : Option String := none
  labels : List Label := []
  severity : Severity := .error
deriving DecidableEq, Repr

end Signet
