import Signet.Report

/-! # Errors of buffers and locations

Asking a buffer for a position or a range that it does not have is an error of the caller. So are
carving a buffer out of nothing and asking a location for a child that nobody assigned.
-/

namespace Signet

/-- Why a position, a range, a child buffer or a child location does not exist. -/
inductive LocationError where
  | outOfRange (buffer : String) (pos length : Nat)
  | invalidRange (buffer : String) (range : Range) (length : Nat)
  | requiredChildNotSet (key : String)
  | emptyChildBuffer (buffer : String)
deriving DecidableEq, Repr

namespace LocationError

/-- The wording of an error. -/
def message : LocationError → String
  | outOfRange buffer pos length =>
    "Position " ++ toString pos ++ " is out of range for buffer `" ++ buffer ++ "` of length "
      ++ toString length
  | invalidRange buffer range length =>
    "Invalid range " ++ toString range.start ++ "..." ++ toString range.stop ++ " for buffer `"
      ++ buffer ++ "` of length " ++ toString length
  | requiredChildNotSet key => "Required child `" ++ key ++ "` was never assigned"
  | emptyChildBuffer buffer =>
    "Cannot create a child buffer of `" ++ buffer ++ "` without any range"

/-- The name of an error. -/
def kind : LocationError → String
  | outOfRange .. => "OutOfRange"
  | invalidRange .. => "InvalidRange"
  | requiredChildNotSet .. => "RequiredChildNotSet"
  | emptyChildBuffer .. => "EmptyChildBuffer"

/-- The stable code of an error. -/
def code : LocationError → String
  | outOfRange .. => "rbs::location::out_of_range"
  | invalidRange .. => "rbs::location::invalid_range"
  | requiredChildNotSet .. => "rbs::location::required_child_not_set"
  | emptyChildBuffer .. => "rbs::location::empty_child_buffer"

/-- Advice, where there is some. -/
def help : LocationError → Option String
  | requiredChildNotSet _ =>
    some "Parsers must assign every required child before publishing a location"
  | _ => none

/-- The account of an error. It points at no input. -/
def report (error : LocationError) : Report :=
  { kind := error.kind, message := error.message, code := error.code, help := error.help }

end LocationError

end Signet
