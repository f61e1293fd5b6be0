import Signet.Source.Location

/-! # Sessions

A session keeps buffers and locations under names. Two buffers with the same text are still two
buffers: each gets a serial when it is opened, and a location is the same as another only if both
lie on the buffer of one serial.
-/

namespace Signet

/-- A value together with the serial of the buffer that it is or lies on. -/
structure Held (α : Type) where
  value : α
  serial : Nat

/-- A location of any shape. -/
structure AnyLocation where
  shape : Shape
  location : Location shape

/-- Why a step of a session fails. -/
inductive SessionError where
  | unbound (id : String)
  | location (error : LocationError)

/-- Named buffers and locations, latest first, and the number of buffers opened so far. -/
structure Session where
  opened : Nat := 0
  buffers : List (String × Held Buffer) := []
  locations : List (String × Held AnyLocation) := []

namespace Session

/-- A buffer under its name. -/
def buffer (session : Session) (id : String) : Except SessionError (Held Buffer) :=
  match session.buffers.lookup id with
  | some held => .ok held
  | none => .error (.unbound id)

/-- A location under its name. -/
def location (session : Session) (id : String) : Except SessionError (Held AnyLocation) :=
  match session.locations.lookup id with
  | some held => .ok held
  | none => .error (.unbound id)

/-- Opens a buffer under a name; an earlier buffer of that name is forgotten. -/
def openBuffer (session : Session) (id : String) (buffer : Buffer) : Session :=
  { session with
    opened := session.opened + 1
    buffers := (id, ⟨buffer, session.opened⟩) :: session.buffers }

/-- Keeps a location under a name, if it is given one. -/
def keep (session : Session) (id : Option String) (held : Held AnyLocation) : Session :=
  match id with
  | some id => { session with locations := (id, held) :: session.locations }
  | none => session

/-- Keeps a location that lies on a new buffer of its own. -/
def keepDetached (session : Session) (id : Option String) (location : AnyLocation) : Session :=
  { session.keep id ⟨location, session.opened⟩ with opened := session.opened + 1 }

/-- Two locations are the same if they select the same range of one buffer. -/
def same (a b : Held AnyLocation) : Bool :=
  a.serial = b.serial && a.value.location.range = b.value.location.range

end Session

end Signet
