/-
The stored form of tokens.

A stored token keeps kind, line, payload and span side by side, and reading one
back checks each for itself: they need not agree with each other.
-/
import RuleLex.Stored.Modifiers
import RuleLex.Stored.Pattern
import RuleLex.Token.Basic

namespace RuleLex

/-! ## Places -/

namespace Position

def toJson (p : Position) : Json :=
  .object [("column", .integer p.column), ("line", .integer p.line), ("offset", .integer p.offset)]

/-- Offsets are words of 64 bits, lines and columns words of 32. -/
def ofJson? (v : Json) : Option Position :=
  match Stored.fields? ["offset", "line", "column"] v with
  | some [some offset, some line, some column] =>
    match Stored.below? UInt64.size offset, Stored.below? UInt32.size line,
        Stored.below? UInt32.size column with
    | some offset, some line, some column =>
      some { offset := offset, line := line, column := column }
    | _, _, _ => none
  | _ => none

end Position

instance : Stored Position where
  toJson := Position.toJson
  ofJson? := Position.ofJson?

namespace Span

def toJson (s : Span) : Json := .object [("end", s.stop.toJson), ("start", s.start.toJson)]

def ofJson? (v : Json) : Option Span :=
  match Stored.fields? ["start", "end"] v with
  | some [some start, some stop] =>
    match Position.ofJson? start, Position.ofJson? stop with
    | some start, some stop => some { start := start, stop := stop }
    | _, _ => none
  | _ => none

end Span

instance : Stored Span where
  toJson := Span.toJson
  ofJson? := Span.ofJson?

/-! ## Kinds -/

instance : Stored Keyword where
  toJson k := .string k.name
  ofJson? v := (Stored.unitVariant? v).bind Keyword.ofName?

instance : Stored TokenClass where
  toJson c := .string c.name
  ofJson? v := (Stored.unitVariant? v).bind fun name => TokenClass.all.find? (·.name == name)

namespace TokenKind

def toJson : TokenKind → Json
  | .keyword k => .object [("Keyword", Stored.toJson k)]
  | .symbol b => .object [("Symbol", .integer b.toNat)]
  | kind => .string kind.name

def ofJson? (v : Json) : Option TokenKind :=
  match Stored.variant? v with
  | some (name, payload) =>
    if name = "Keyword" then (payload.bind Stored.ofJson?).map .keyword
    else if name = "Symbol" then (payload.bind Stored.byte?).map .symbol
    else (Stored.unitVariant? v).bind fun name => plain.find? (·.name == name)
  | none => none

end TokenKind

instance : Stored TokenKind where
  toJson := TokenKind.toJson
  ofJson? := TokenKind.ofJson?

/-! ## Payloads -/

namespace TokenValue

def toJson : TokenValue → Json
  | .none => .string "None"
  | .text content => .object [("Text", Stored.bytes content)]
  | .integer n => .object [("Integer", .integer n.toInt)]
  | .float x => .object [("Float", Stored.binary64 x)]
  | .regex pattern modifiers =>
    .object
      [("Regex", .object
        [("modifiers", Stored.toJson modifiers), ("pattern", Stored.bytes pattern)])]
  | .hexPattern elements => .object [("HexPattern", .array (Pattern.sequenceToJson elements))]

/-- A regular expression, from its pattern and its flags. -/
def regexOfJson? (v : Json) : Option TokenValue :=
  match Stored.fields? ["pattern", "modifiers"] v with
  | some [some pattern, some modifiers] =>
    match Stored.bytes? pattern, Stored.ofJson? modifiers with
    | some pattern, some modifiers => some (.regex pattern modifiers)
    | _, _ => Option.none
  | _ => Option.none

def ofJson? (v : Json) : Option TokenValue :=
  match Stored.variant? v with
  | some (name, payload) =>
    if name = "None" ∧ (Stored.unitVariant? v).isSome then some .none
    else if name = "Text" then (payload.bind Stored.bytes?).map .text
    else if name = "Integer" then (payload.bind Stored.signed64?).map .integer
    else if name = "Float" then (payload.bind Stored.binary64?).map .float
    else if name = "Regex" then payload.bind regexOfJson?
    else if name = "HexPattern" then (payload.bind Pattern.sequenceOfJson?).map .hexPattern
    else Option.none
  | Option.none => Option.none

end TokenValue

instance : Stored TokenValue where
  toJson := TokenValue.toJson
  ofJson? := TokenValue.ofJson?

namespace Token

def toJson (t : Token) : Json :=
  .object
    [("kind", t.kind.toJson), ("line", .integer t.line), ("span", t.span.toJson),
     ("value", t.value.toJson)]

def ofJson? (v : Json) : Option Token :=
  match Stored.fields? ["kind", "line", "value", "span"] v with
  | some [some kind, some line, some value, some span] =>
    match TokenKind.ofJson? kind, Stored.below? UInt32.size line, TokenValue.ofJson? value,
        Span.ofJson? span with
    | some kind, some line, some value, some span =>
      some { kind := kind, line := line, value := value, span := span }
    | _, _, _, _ => none
  | _ => none

end Token

instance : Stored Token where
  toJson := Token.toJson
  ofJson? := Token.ofJson?

end RuleLex
