/-
Tokens.

A token has a kind, the line its lexeme began on, a payload and a span.  The
lexer builds tokens whose payload agrees with their kind; a token that was
stored and read back need not, and `sourceText` is total for that reason.
-/
import RuleLex.Binary64.Shortest
import RuleLex.Pattern.Element
import RuleLex.Source.Span
import RuleLex.Text.Utf8
import RuleLex.Token.Kind
import RuleLex.Token.Modifiers

namespace RuleLex

/-- The payload of a token.  Texts are kept as bytes, escapes as written. -/
inductive TokenValue where
  | none
  | text (content : List UInt8)
  | integer (value : Int64)
  | float (value : Binary64)
  | regex (pattern : List UInt8) (modifiers : Modifiers)
  | hexPattern (elements : List Pattern.Element)
deriving Repr

/-- One lexeme of the source. -/
structure Token where
  kind : TokenKind
  line : Nat
  value : TokenValue
  span : Span
deriving Repr

namespace Token

/-- The token of a lexeme that covers a span. -/
def ofSpan (kind : TokenKind) (value : TokenValue) (span : Span) : Token :=
  { kind := kind, line := span.start.line, value := value, span := span }

def tokenClass (t : Token) : TokenClass := t.kind.tokenClass

def isEof (t : Token) : Bool := t.kind == .eof

def isKeyword (t : Token) (k : Keyword) : Bool := t.kind == .keyword k

def keyword? (t : Token) : Option Keyword :=
  match t.kind with
  | .keyword k => some k
  | _ => Option.none

def text? (t : Token) : Option (List UInt8) :=
  match t.value with
  | .text content => some content
  | _ => Option.none

def integer? (t : Token) : Option Int64 :=
  match t.value with
  | .integer v => some v
  | _ => Option.none

def float? (t : Token) : Option Binary64 :=
  match t.value with
  | .float v => some v
  | _ => Option.none

def regex? (t : Token) : Option (List UInt8 × Modifiers) :=
  match t.value with
  | .regex pattern modifiers => some (pattern, modifiers)
  | _ => Option.none

def hexPattern? (t : Token) : Option (List Pattern.Element) :=
  match t.value with
  | .hexPattern elements => some elements
  | _ => Option.none

/-- The payload in rule source, for the kinds that do not spell themselves.
Without a payload there is only the name of the kind to show. -/
def valueText (kind : TokenKind) : TokenValue → String
  | .text content =>
    if kind = .literal .textString then "\"" ++ Text.ofBytes content ++ "\""
    else Text.ofBytes content
  | .integer v => toString v.toInt
  | .float v => v.text
  | .regex pattern modifiers => "/" ++ Text.ofBytes pattern ++ "/" ++ modifiers.text
  | .hexPattern elements => Pattern.render elements
  | .none => kind.name

/-- The token as it stood in rule source.  Keywords, operators, symbols and the
end of the source spell themselves whatever their payload is. -/
def sourceText (t : Token) : String :=
  match t.kind with
  | .keyword k => k.spelling
  | .operator op => op.spelling
  | .symbol b => String.ofList [Char.ofNat b.toNat]
  | .eof => "<EOF>"
  | kind => valueText kind t.value

end Token
end RuleLex
