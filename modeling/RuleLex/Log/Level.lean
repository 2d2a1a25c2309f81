/-
How serious a log event is.

A level is a threshold as well: a logger at some level takes the events of that
level and of every more serious one.
-/

namespace RuleLex
namespace Log

inductive Level where
  | error | warning | info | debug
deriving DecidableEq, Repr

namespace Level

def all : List Level := [.error, .warning, .info, .debug]

/-- The most serious level comes first. -/
def rank : Level → Nat
  | .error => 0 | .warning => 1 | .info => 2 | .debug => 3

/-- A logger at level `threshold` takes events of level `l`. -/
def admits (threshold l : Level) : Bool := l.rank ≤ threshold.rank

/-- The level as log lines show it. -/
def label : Level → String
  | .error => "ERROR" | .warning => "WARN" | .info => "INFO" | .debug => "DEBUG"

/-- The level as preferences store it. -/
def name : Level → String
  | .error => "Error" | .warning => "Warning" | .info => "Info" | .debug => "Debug"

/-- The level that a word of a setting means, whatever its case.  The words are
ASCII and no other letter has one of theirs as its lower case, so lowering the
ASCII letters decides the same. -/
def ofSetting? (word : String) : Option Level :=
  let lowered := word.toLower
  if lowered = "error" ∨ lowered = "0" then some .error
  else if lowered = "warning" ∨ lowered = "warn" ∨ lowered = "1" then some .warning
  else if lowered = "info" ∨ lowered = "2" then some .info
  else if lowered = "debug" ∨ lowered = "3" then some .debug
  else none

end Level
end Log
end RuleLex
