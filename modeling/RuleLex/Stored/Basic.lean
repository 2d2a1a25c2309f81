/-
The stored form of values, as JSON.

A structure is an object with its fields by name, or an array of all of them in
their order; members of other names are ignored.  A variant without payload is
its name, and a variant with one is an object with a single member, whose fields,
if it has some by name, are a structure again.  The name of a variant without
payload may also come as such a member, with null behind it.
-/
import RuleLex.Binary64.Nearest
import RuleLex.Json.Basic

namespace RuleLex

/-- Values that can be stored and read back. -/
class Stored (α : Type) where
  toJson : α → Json
  ofJson? : Json → Option α

namespace Stored

/-! ## Shapes -/

/-- The fields of an object by name; a field may be missing. -/
def members? (names : List String) : Json → Option (List (Option Json))
  | .object members => some (names.map (Json.member? members))
  | _ => none

/-- The fields of a structure.  In an array none may be missing or too many. -/
def fields? (names : List String) : Json → Option (List (Option Json))
  | .array items => if items.length = names.length then some (items.map some) else none
  | v => members? names v

/-- The name of a variant with its payload. -/
def variant? : Json → Option (String × Option Json)
  | .string name => some (name, none)
  | .object [(name, payload)] => some (name, some payload)
  | _ => none

/-- The name of a variant that has no payload. -/
def unitVariant? (v : Json) : Option String :=
  match variant? v with
  | some (name, none) => some name
  | some (name, some .null) => some name
  | _ => none

/-- Reads every value of a list, or nothing. -/
def all? {α : Type} (read : Json → Option α) : List Json → Option (List α)
  | [] => some []
  | v :: rest =>
    match read v, all? read rest with
    | some a, some as => some (a :: as)
    | _, _ => none

/-! ## Numbers and lists -/

/-- A natural number below a bound. -/
def below? (bound : Nat) : Json → Option Nat
  | .integer n => if 0 ≤ n ∧ n < bound then some n.toNat else none
  | _ => none

def bool? : Json → Option Bool
  | .bool b => some b
  | _ => none

def byte? (v : Json) : Option UInt8 := (below? UInt8.size v).map Nat.toUInt8

def word32? (v : Json) : Option UInt32 := (below? UInt32.size v).map Nat.toUInt32

/-- An optional word; null stands for none. -/
def optionalWord32? : Json → Option (Option UInt32)
  | .null => some none
  | v => (word32? v).map some

def signed64? : Json → Option Int64
  | .integer n =>
    if -0x8000000000000000 ≤ n ∧ n < 0x8000000000000000 then some (Int64.ofInt n) else none
  | _ => none

/-- A floating point number; an integer stands for the nearest one. -/
def binary64? : Json → Option Binary64
  | .float x => some x
  | .integer n => some (.ofInt n)
  | _ => none

def bytes? : Json → Option (List UInt8)
  | .array items => all? byte? items
  | _ => none

def natural (n : Nat) : Json := .integer n

def bytes (bs : List UInt8) : Json := .array (bs.map fun b => .integer b.toNat)

/-- What is not finite has no JSON number. -/
def binary64 (x : Binary64) : Json := if x.isFinite then .float x else .null

def optionalWord32 : Option UInt32 → Json
  | none => .null
  | some n => .integer n.toNat

end Stored
end RuleLex
