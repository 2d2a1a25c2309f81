/-
Events kept in memory.

A window holds the latest events up to its capacity, which is at least one, in
the order they came.
-/
import RuleLex.Limits
import RuleLex.Log.Event

namespace RuleLex
namespace Log

/-- The latest events. -/
structure Window where
  capacity : Nat
  events : Array Event
deriving Repr

namespace Window

/-- An empty window.  A capacity of zero counts as one. -/
def empty (capacity : Nat) : Window := { capacity := max capacity 1, events := #[] }

/-- The events, oldest first. -/
def toList (w : Window) : List Event := w.events.toList

def size (w : Window) : Nat := w.events.size

/-- One more event.  A full window lets go of its oldest ones. -/
def push (w : Window) (e : Event) : Window :=
  if w.size < w.capacity then { w with events := w.events.push e }
  else { w with events := (w.events.extract (w.size + 1 - w.capacity) w.size).push e }

def clear (w : Window) : Window := { w with events := #[] }

/-- One more event, if a logger at level `threshold` takes it. -/
def log (threshold : Level) (w : Window) (e : Event) : Window :=
  if threshold.admits e.level then w.push e else w

/-! ## Asking -/

def errors (w : Window) : List Event := w.toList.filter Event.isError

def withCode (w : Window) (code : String) : List Event := w.toList.filter fun e => e.code == code

def inCategory (w : Window) (category : String) : List Event :=
  w.toList.filter fun e => e.category == category

def hasErrorWithCode (w : Window) (code : String) : Bool :=
  w.toList.any fun e => e.isError && e.code == code

def hasSuccessWithCode (w : Window) (code : String) : Bool :=
  w.toList.any fun e => e.isInfo && e.code == code

/-- How many events there are of each level. -/
structure Summary where
  total : Nat
  errors : Nat
  warnings : Nat
  infos : Nat
  debugs : Nat
deriving DecidableEq, Repr

def summary (w : Window) : Summary where
  total := w.size
  errors := w.toList.countP Event.isError
  warnings := w.toList.countP Event.isWarning
  infos := w.toList.countP Event.isInfo
  debugs := w.toList.countP Event.isDebug

end Window
end Log
end RuleLex
