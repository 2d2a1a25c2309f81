/-
Lexical errors.

A fault is what is wrong with a lexeme; an error adds the line it is reported
for.  Bytes of the source get into a message only in escaped or hexadecimal
form, or as the characters of a number, so a message is always one line of
printable ASCII.
-/
import RuleLex.Ascii
import RuleLex.Limits
import RuleLex.Log.Code
import RuleLex.Pattern.Flaw

namespace RuleLex

/-- A reason to refuse a lexeme. -/
inductive Fault where
  | numberConversion (literal : List UInt8)
  | integerOverflow (literal : List UInt8)
  | invalidRegexModifier (modifier : UInt8)
  | unterminatedString
  | illegalEscapeSequence (escape : UInt8)
  | unterminatedRegex
  | nonAsciiByte (byte : UInt8)
  | unterminatedComment
  | identifierTooLong (length : Nat)
  | literalTooLong (length : Nat)
  | hexPattern (error : Pattern.Error)
deriving DecidableEq, Repr

namespace Fault

/-- The name of the kind of fault. -/
def name : Fault → String
  | .numberConversion _ => "NumberConversion"
  | .integerOverflow _ => "IntegerOverflow"
  | .invalidRegexModifier _ => "InvalidRegexModifier"
  | .unterminatedString => "UnterminatedString"
  | .illegalEscapeSequence _ => "IllegalEscapeSequence"
  | .unterminatedRegex => "UnterminatedRegex"
  | .nonAsciiByte _ => "NonAsciiByte"
  | .unterminatedComment => "UnterminatedComment"
  | .identifierTooLong _ => "IdentifierTooLong"
  | .literalTooLong _ => "LiteralTooLong"
  | .hexPattern _ => "HexPattern"

/-- The log code of a fault. -/
def code : Fault → String
  | .numberConversion _ => Log.Code.numberConversion
  | .integerOverflow _ => Log.Code.integerOverflow
  | .invalidRegexModifier _ => Log.Code.invalidRegexModifier
  | .unterminatedString => Log.Code.unterminatedString
  | .illegalEscapeSequence _ => Log.Code.illegalEscapeSequence
  | .unterminatedRegex => Log.Code.unterminatedRegex
  | .nonAsciiByte _ => Log.Code.nonAsciiByte
  | .unterminatedComment => Log.Code.unterminatedComment
  | .identifierTooLong _ => Log.Code.identifierTooLong
  | .literalTooLong _ => Log.Code.literalTooLong
  | .hexPattern _ => Log.Code.invalidHexPattern

/-- The wording of a fault. -/
def message : Fault → String
  | .numberConversion literal => s!"cannot convert numeric literal '{Ascii.text literal}'"
  | .integerOverflow literal =>
    s!"integer literal '{Ascii.text literal}' overflows a 64-bit integer"
  | .invalidRegexModifier b => s!"invalid regular expression modifier '{Ascii.escape b}'"
  | .unterminatedString => "unterminated string"
  | .illegalEscapeSequence b => s!"illegal escape sequence '\\{Ascii.escape b}'"
  | .unterminatedRegex => "unterminated regular expression"
  | .nonAsciiByte b => s!"non-ASCII byte 0x{String.ofList (Ascii.hexPair b)}"
  | .unterminatedComment => "unterminated block comment"
  | .identifierTooLong n =>
    s!"identifier too long: {n} characters (max {limits.maxIdentifierLength})"
  | .literalTooLong n => s!"literal too long: {n} bytes (max {limits.maxLiteralSize})"
  | .hexPattern e => s!"invalid byte pattern: {e.message}"

end Fault

/-- A fault with the line it is reported for. -/
structure LexError where
  line : Nat
  fault : Fault
deriving DecidableEq, Repr

namespace LexError

def code (e : LexError) : String := e.fault.code

def message (e : LexError) : String := s!"line {e.line}: {e.fault.message}"

end LexError
end RuleLex
