/-
Log events.

An event is made by one of five constructors, which fix its level and cut its
message to the length limit.  It has no time of its own: the time is told when
the event is written as JSON.

`text` is the plain line of an event and `render` the line of a structured log,
a JSON object whose members are sorted by name.
-/
import RuleLex.Json.Printer
import RuleLex.Limits
import RuleLex.Log.Code
import RuleLex.Log.Level
import RuleLex.Source.Span
import RuleLex.Text.Cut

namespace RuleLex
namespace Log

/-- Named details of an event, sorted by name, each name once. -/
abbrev Context := List (String × String)

namespace Context

/-- Puts an entry in its place.  An entry of the same name is replaced. -/
def insert (key value : String) : Context → Context
  | [] => [(key, value)]
  | (k, v) :: rest =>
    if key = k then (key, value) :: rest
    else if key < k then (key, value) :: (k, v) :: rest
    else (k, v) :: insert key value rest

/-- The entries of a list, a later one replacing an earlier one of its name. -/
def ofList (entries : List (String × String)) : Context :=
  entries.foldl (fun c e => insert e.1 e.2 c) []

end Context

/-- Something worth telling. -/
structure Event where
  level : Level
  code : String
  message : String
  span : Option Span
  context : Context
deriving DecidableEq, Repr

namespace Event

/-- An event without span and details, its message cut to the limit. -/
def make (level : Level) (code message : String) : Event where
  level := level
  code := code
  message := Text.cut limits.maxLogMessageLength message
  span := none
  context := []

def error (code message : String) : Event := make .error code message

def success (code message : String) : Event := make .info code message

def warning (message : String) : Event := make .warning Code.plainWarning message

def info (message : String) : Event := make .info Code.plainInfo message

def debug (message : String) : Event := make .debug Code.plainDebug message

def withSpan (e : Event) (span : Span) : Event := { e with span := some span }

/-- Adds details; a later one replaces an earlier one of its name. -/
def withContext (e : Event) (entries : List (String × String)) : Event :=
  { e with context := entries.foldl (fun c x => c.insert x.1 x.2) e.context }

def isError (e : Event) : Bool := e.level == .error

def isWarning (e : Event) : Bool := e.level == .warning

def isInfo (e : Event) : Bool := e.level == .info

def isDebug (e : Event) : Bool := e.level == .debug

def category (e : Event) : String := Code.category e.code

/-- The plain line of an event: level, code, message, and where it is about. -/
def text (e : Event) : String :=
  let place :=
    match e.span with
    | some s => s!" at {s.start.text}"
    | none => ""
  s!"[{e.level.label}] {e.code} - {e.message}{place}"

/-! ## Structured form -/

/-- What the registry says about an error. -/
def metadataJson (e : Event) : Json :=
  .object
    [("description", .string (Code.description e.code)),
     ("recommended_action", .string (Code.action e.code)),
     ("requires_halt", .bool (Code.requiresHalt e.code))]

/-- Where an event is about, by lines and columns. -/
def spanJson (s : Span) : Json :=
  .object
    [("end_column", .integer s.stop.column),
     ("end_line", .integer s.stop.line),
     ("start_column", .integer s.start.column),
     ("start_line", .integer s.start.line)]

def contextJson (c : Context) : Json := .object (c.map fun e => (e.1, .string e.2))

/-- An event as a JSON object.  Details, error metadata and span are there only
when the event has them. -/
def toJson (seconds : Nat) (e : Event) : Json :=
  .object
    ([("category", .string e.category), ("code", .string e.code)]
      ++ (if e.context = [] then [] else [("context", contextJson e.context)])
      ++ (if e.isError then [("error_metadata", e.metadataJson)] else [])
      ++ [("level", .string e.level.label), ("message", .string e.message),
          ("severity", .string (Code.severity e.code).name)]
      ++ (match e.span with
          | some s => [("span", spanJson s)]
          | none => [])
      ++ [("timestamp", .integer seconds)])

/-- The line of an event in a structured log, at a time in seconds. -/
def render (seconds : Nat) (e : Event) : String := (e.toJson seconds).render

end Event
end Log
end RuleLex
