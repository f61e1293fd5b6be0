import Signet.Environment.Context
import Signet.Environment.Entry
import Signet.Inline.Diagnostic

/-! # Nesting

While a file is read, the classes and modules around the current place form a stack of frames. A
frame collects the members of its declaration; a module whose name cannot be told has a frame that
collects nothing. Results that belong to no other declaration get a slot when they begin, so that
they come out in the order in which they begin and not in that in which they end.

`within` is the one way to go into a module: it goes in, runs a body, and comes out again, whether
or not the body fails.
-/

namespace Signet.Inline

/-- A declaration in progress. -/
structure OpenDeclaration where
  outer : Context
  declaration : Declaration
  visibility : Option Visibility := none
  scope : List String := []
  slot : Option Nat := none

/-- A class or a module that is being read. -/
inductive Frame where
  | known (frame : OpenDeclaration)
  | unknown

/-- Where a reading is and what it has found so far. The innermost frame comes first. -/
structure Progress where
  context : Context := .top
  stack : List Frame := []
  slots : List (Option Record) := []
  diagnostics : List Diagnostic := []

/-- A step of a reading. What it has found before it fails is kept. -/
abbrev StepT (m : Type → Type) := ExceptT InlineError (StateT Progress m)

/-- A step of a reading that does nothing else. -/
abbrev Step := StepT Id

/-- The place is inside some class or module. -/
def Progress.isInside (progress : Progress) : Bool := !progress.stack.isEmpty

/-- Goes into a module: with its frame on the stack, in its context. -/
def Progress.enter (progress : Progress) (frame : Frame) (inner : Context) : Progress :=
  { progress with context := inner, stack := frame :: progress.stack }

/-- Comes out of a module: without the innermost frame, in the context before. -/
def Progress.leave (progress : Progress) (outer : Context) : Progress :=
  { progress with context := outer, stack := progress.stack.tail }

/-- Runs a body inside a module and returns the frame as the body leaves it. -/
def within {m : Type → Type} [Monad m] (frame : Frame) (inner : Context) (body : StepT m Unit) :
    StepT m Frame :=
  ExceptT.mk do
    let before ← get
    set (before.enter frame inner)
    let result ← body.run
    let after ← get
    set (after.leave before.context)
    match result, after.stack with
    | .error error, _ => return .error error
    | .ok _, frame :: _ => return .ok frame
    | .ok _, [] => return .error .nestingUnderflow

namespace Progress

/-- The declaration in progress at the place, if its module is known. -/
def current? (progress : Progress) : Option OpenDeclaration :=
  match progress.stack with
  | .known frame :: _ => some frame
  | _ => none

/-- Changes the declaration in progress, if there is one. -/
def updateCurrent (progress : Progress) (change : OpenDeclaration → OpenDeclaration) : Progress :=
  match progress.stack with
  | .known frame :: outer => { progress with stack := .known (change frame) :: outer }
  | _ => progress

/-- Adds a member to the declaration in progress. -/
def addMember (progress : Progress) (member : Member) : Progress :=
  progress.updateCurrent fun frame =>
    { frame with declaration := frame.declaration.addMember member }

/-- Opens a section of a visibility in the declaration in progress. -/
def openSection (progress : Progress) (visibility : Visibility) : Progress :=
  progress.updateCurrent fun frame => { frame with visibility := some visibility }

/-- The type variables in scope. -/
def scope (progress : Progress) : List String := (progress.current?.map (·.scope)).getD []

/-- Reserves a slot for a result, unless it will be a member of a declaration in progress. -/
def reserve (progress : Progress) : Progress × Option Nat :=
  match progress.current? with
  | some _ => (progress, none)
  | none =>
    ({ progress with slots := progress.slots ++ [none] }, some progress.slots.length)

/-- Reserving a slot leaves the stack alone. -/
theorem stack_reserve (progress : Progress) : progress.reserve.1.stack = progress.stack := by
  unfold reserve
  split <;> rfl

/-- Hands over a finished declaration: into its slot, or to the declaration around it. -/
def finish (progress : Progress) (frame : OpenDeclaration) : Progress :=
  let record : Record := ⟨frame.outer, frame.declaration⟩
  match frame.slot with
  | some slot => { progress with slots := progress.slots.set slot (some record) }
  | none =>
    match progress.current? with
    | some _ => progress.addMember (.nested frame.declaration)
    | none => { progress with slots := progress.slots ++ [some record] }

/-- Reports a diagnostic, unless there are as many as wanted. -/
def report (progress : Progress) (limit : Option Nat) (diagnostic : Diagnostic) : Progress :=
  match limit with
  | some limit =>
    if limit ≤ progress.diagnostics.length then progress
    else { progress with diagnostics := progress.diagnostics ++ [diagnostic] }
  | none => { progress with diagnostics := progress.diagnostics ++ [diagnostic] }

end Progress

end Signet.Inline
