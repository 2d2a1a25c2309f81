/-
Events written out.

A backend turns an event into text on one of the two standard streams: errors
go to the error stream and everything else to the output stream.  A service is
a backend behind a level.
-/
import RuleLex.Log.Event

namespace RuleLex
namespace Log

/-- Text written to the two standard streams. -/
structure Output where
  stdout : String
  stderr : String
deriving DecidableEq, Repr

namespace Output

def nothing : Output := { stdout := "", stderr := "" }

def append (a b : Output) : Output :=
  { stdout := a.stdout ++ b.stdout, stderr := a.stderr ++ b.stderr }

instance : Append Output := ⟨append⟩

/-- A line on the stream where events of a level belong. -/
def line (level : Level) (text : String) : Output :=
  if level = .error then { stdout := "", stderr := text ++ "\n" }
  else { stdout := text ++ "\n", stderr := "" }

end Output

/-- A way to write events: not at all, as plain lines, or as JSON lines.  A logger
that the program brings along is known by a number and nothing else. -/
inductive Backend where
  | silent | plain | structured
  | supplied (id : Nat)
deriving DecidableEq, Repr

/-- The text of one event at a time in seconds.  What a supplied logger does with
an event is not known here, and no text is put down to it. -/
def Backend.write (backend : Backend) (seconds : Nat) (e : Event) : Output :=
  match backend with
  | .silent | .supplied _ => .nothing
  | .plain => .line e.level e.text
  | .structured => .line e.level (e.render seconds)

/-- A backend that takes the events of a level and of more serious ones. -/
structure Service where
  level : Level
  backend : Backend
deriving DecidableEq, Repr

namespace Service

/-- The text of one event, if the service takes it. -/
def log (s : Service) (seconds : Nat) (e : Event) : Output :=
  if s.level.admits e.level then s.backend.write seconds e else .nothing

/-- The text of several events in their order. -/
def logAll (s : Service) (seconds : Nat) (events : List Event) : Output :=
  events.foldl (fun out e => out ++ s.log seconds e) .nothing

end Service
end Log
end RuleLex
