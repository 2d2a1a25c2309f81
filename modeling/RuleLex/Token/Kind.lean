/-
The kinds of token.

A kind says what a lexeme is: a keyword, an operator of two bytes, a name, a
literal, a single symbol or the end of the source.  The coarser classes are
what metrics count and what a parser dispatches on.
-/
import RuleLex.Ascii
import RuleLex.Keyword

namespace RuleLex

/-- An operator of two bytes. -/
inductive Operator where
  | dotDot | le | ge | eq | ne | shl | shr
deriving DecidableEq, Repr

namespace Operator

def all : List Operator := [.dotDot, .le, .ge, .eq, .ne, .shl, .shr]

def spelling : Operator → String
  | .dotDot => ".." | .le => "<=" | .ge => ">=" | .eq => "==" | .ne => "!="
  | .shl => "<<" | .shr => ">>"

def name : Operator → String
  | .dotDot => "DotDot" | .le => "Le" | .ge => "Ge" | .eq => "Eq" | .ne => "Ne"
  | .shl => "Shl" | .shr => "Shr"

/-- The operator that two bytes spell. -/
def ofBytes? (first second : UInt8) : Option Operator :=
  all.find? fun o => Ascii.bytes o.spelling == [first, second]

end Operator

/-- A name, by what it refers to: a string of the rule by its sigil, a sized
read function, or anything else. -/
inductive Naming where
  | stringIdentifier
  | stringIdentifierWithWildcard
  | stringCount
  | stringOffset
  | stringLength
  | integerFunction
  | identifier
deriving DecidableEq, Repr

namespace Naming

def all : List Naming :=
  [.stringIdentifier, .stringIdentifierWithWildcard, .stringCount, .stringOffset,
   .stringLength, .integerFunction, .identifier]

def name : Naming → String
  | .stringIdentifier => "StringIdentifier"
  | .stringIdentifierWithWildcard => "StringIdentifierWithWildcard"
  | .stringCount => "StringCount"
  | .stringOffset => "StringOffset"
  | .stringLength => "StringLength"
  | .integerFunction => "IntegerFunction"
  | .identifier => "Identifier"

end Naming

/-- A literal, by its form. -/
inductive Literal where
  | integer | float | textString | regex | hexString
deriving DecidableEq, Repr

namespace Literal

def all : List Literal := [.integer, .float, .textString, .regex, .hexString]

def name : Literal → String
  | .integer => "Integer" | .float => "Float" | .textString => "TextString"
  | .regex => "Regex" | .hexString => "HexString"

end Literal

/-- The coarse groups of kinds. -/
inductive TokenClass where
  | keyword | operator | identifier | literal | punctuation | finish
deriving DecidableEq, Repr

namespace TokenClass

/-- The classes in their order. -/
def all : List TokenClass :=
  [.keyword, .operator, .identifier, .literal, .punctuation, .finish]

def name : TokenClass → String
  | .keyword => "Keyword" | .operator => "Operator" | .identifier => "Identifier"
  | .literal => "Literal" | .punctuation => "Punctuation" | .finish => "End"

end TokenClass

/-- What a lexeme is. -/
inductive TokenKind where
  | keyword (word : Keyword)
  | operator (op : Operator)
  | naming (kind : Naming)
  | literal (form : Literal)
  | symbol (byte : UInt8)
  | eof
deriving DecidableEq, Repr

namespace TokenKind

def tokenClass : TokenKind → TokenClass
  | .keyword _ => .keyword
  | .operator _ => .operator
  | .naming _ => .identifier
  | .literal _ => .literal
  | .symbol _ => .punctuation
  | .eof => .finish

def isOperator : TokenKind → Bool
  | .operator _ => true
  | _ => false

/-- Kinds whose payload is the text of the lexeme. -/
def carriesText : TokenKind → Bool
  | .naming _ | .literal .textString => true
  | _ => false

/-- The spelling of an operator kind. -/
def operatorSpelling? : TokenKind → Option String
  | .operator op => some op.spelling
  | _ => none

/-- The name under which diagnostics know a kind. -/
def name : TokenKind → String
  | .keyword k => s!"Keyword({k.name})"
  | .operator op => op.name
  | .naming n => n.name
  | .literal l => l.name
  | .symbol b => s!"Symbol({b.toNat})"
  | .eof => "Eof"

/-- The kinds that are not keywords or symbols, with a name of their own. -/
def plain : List TokenKind :=
  Operator.all.map .operator ++ Naming.all.map .naming ++ Literal.all.map .literal ++ [.eof]

end TokenKind
end RuleLex
