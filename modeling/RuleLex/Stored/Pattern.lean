/-
The stored form of byte pattern elements.
-/
import RuleLex.Pattern.Element
import RuleLex.Stored.Basic

namespace RuleLex
namespace Pattern

def Nibble.toJson : Nibble → Json
  | .literal v => .object [("Literal", .integer v.toNat)]
  | .wildcard => .string "Wildcard"

def Nibble.ofJson? (v : Json) : Option Nibble :=
  match Stored.variant? v with
  | some (name, payload) =>
    if name = "Literal" then (payload.bind Stored.byte?).map .literal
    else if name = "Wildcard" ∧ (Stored.unitVariant? v).isSome then some .wildcard
    else none
  | none => none

instance : Stored Nibble where
  toJson := Nibble.toJson
  ofJson? := Nibble.ofJson?

mutual

def Element.toJson : Element → Json
  | .byte high low => .object [("Byte", .object [("high", high.toJson), ("low", low.toJson)])]
  | .alternation alternatives => .object [("Alternation", .array (alternativesToJson alternatives))]
  | .jump min max =>
    .object [("Jump", .object [("max", Stored.optionalWord32 max), ("min", .integer min.toNat)])]

def sequenceToJson : List Element → List Json
  | [] => []
  | e :: rest => e.toJson :: sequenceToJson rest

def alternativesToJson : List (List Element) → List Json
  | [] => []
  | s :: rest => .array (sequenceToJson s) :: alternativesToJson rest

end

/-- A byte, from both halves. -/
def byteOfJson? (v : Json) : Option Element :=
  match Stored.fields? ["high", "low"] v with
  | some [some high, some low] =>
    match Nibble.ofJson? high, Nibble.ofJson? low with
    | some high, some low => some (.byte high low)
    | _, _ => none
  | _ => none

/-- A jump, from its bounds.  An upper bound that an object lacks is none. -/
def jumpOfJson? (v : Json) : Option Element :=
  match Stored.fields? ["min", "max"] v with
  | some [some min, max] =>
    match Stored.word32? min, Stored.optionalWord32? (max.getD .null) with
    | some min, some max => some (.jump min max)
    | _, _ => none
  | _ => none

mutual

def Element.ofJson? : Json → Option Element
  | .object [(name, payload)] =>
    if name = "Byte" then byteOfJson? payload
    else if name = "Jump" then jumpOfJson? payload
    else if name = "Alternation" then (alternativesOfJson? payload).map .alternation
    else none
  | _ => none

/-- The alternatives of an alternation. -/
def alternativesOfJson? : Json → Option (List (List Element))
  | .array items => alternativesOfItems? items
  | _ => none

def alternativesOfItems? : List Json → Option (List (List Element))
  | [] => some []
  | v :: rest =>
    match sequenceOfJson? v, alternativesOfItems? rest with
    | some s, some ss => some (s :: ss)
    | _, _ => none

/-- The elements of a sequence. -/
def sequenceOfJson? : Json → Option (List Element)
  | .array items => sequenceOfItems? items
  | _ => none

def sequenceOfItems? : List Json → Option (List Element)
  | [] => some []
  | v :: rest =>
    match Element.ofJson? v, sequenceOfItems? rest with
    | some e, some es => some (e :: es)
    | _, _ => none

end

instance : Stored Element where
  toJson := Element.toJson
  ofJson? := Element.ofJson?

end Pattern
end RuleLex
