/-
The codes of log events and what is known about each.

The registry is the only place that says how severe an event is and what to do
about it.  A code that is not in it is taken for a recoverable event of medium
severity in no category.
-/

namespace RuleLex
namespace Log

inductive Severity where
  | critical | high | medium | low
deriving DecidableEq, Repr

namespace Severity

def rank : Severity → Nat
  | .critical => 0 | .high => 1 | .medium => 2 | .low => 3

def name : Severity → String
  | .critical => "Critical" | .high => "High" | .medium => "Medium" | .low => "Low"

end Severity

/-- What is known about a code. -/
structure Metadata where
  code : String
  category : String
  severity : Severity
  recoverable : Bool
  requiresHalt : Bool
  description : String
  action : String
deriving DecidableEq, Repr

namespace Code

def internalError : String := "ERR001"
def initializationFailure : String := "ERR002"
def nonAsciiByte : String := "E020"
def unterminatedString : String := "E021"
def numberConversion : String := "E022"
def identifierTooLong : String := "E023"
def literalTooLong : String := "E024"
def integerOverflow : String := "E025"
def illegalEscapeSequence : String := "E026"
def unterminatedRegex : String := "E027"
def invalidRegexModifier : String := "E028"
def unterminatedComment : String := "E029"
def invalidHexPattern : String := "E030"
def initializationCompleted : String := "I004"
def tokenizationComplete : String := "I020"

/-- The codes of events that have none of their own. -/
def plainWarning : String := "W000"
def plainInfo : String := "I000"
def plainDebug : String := "D000"

/-- The codes of lexical errors. -/
def lexical : List String :=
  [nonAsciiByte, unterminatedString, numberConversion, identifierTooLong, literalTooLong,
   integerOverflow, illegalEscapeSequence, unterminatedRegex, invalidRegexModifier,
   unterminatedComment, invalidHexPattern]

/-- Every registered code. -/
def registry : List Metadata :=
  [{ code := Code.internalError, category := "System", severity := .critical,
     recoverable := false, requiresHalt := true,
     description := "Critical internal system error",
     action := "File a bug report with the offending rule source" },
   { code := Code.initializationFailure, category := "System", severity := .critical,
     recoverable := false, requiresHalt := true,
     description := "System initialization failure",
     action := "Check build profile and runtime configuration" },
   { code := Code.nonAsciiByte, category := "Lexical", severity := .high,
     recoverable := false, requiresHalt := true,
     description := "Byte outside printable ASCII found outside any literal or comment",
     action := "Remove the byte or move it inside a string literal" },
   { code := Code.unterminatedString, category := "Lexical", severity := .high,
     recoverable := false, requiresHalt := true,
     description := "Unterminated text string",
     action := "Close the string with '\"' before the end of the line" },
   { code := Code.numberConversion, category := "Lexical", severity := .high,
     recoverable := false, requiresHalt := true,
     description := "Numeric literal could not be converted to a 64-bit integer",
     action := "Use a value within the signed 64-bit range" },
   { code := Code.identifierTooLong, category := "Lexical", severity := .medium,
     recoverable := false, requiresHalt := true,
     description := "Identifier exceeds the maximum identifier length",
     action := "Shorten the identifier" },
   { code := Code.literalTooLong, category := "Lexical", severity := .medium,
     recoverable := false, requiresHalt := true,
     description := "String or regular expression literal exceeds the maximum size",
     action := "Split the literal or use a byte pattern" },
   { code := Code.integerOverflow, category := "Lexical", severity := .high,
     recoverable := false, requiresHalt := true,
     description := "Size-suffixed integer overflows 64 bits after scaling",
     action := "Use a smaller value or drop the KB/MB suffix" },
   { code := Code.illegalEscapeSequence, category := "Lexical", severity := .high,
     recoverable := false, requiresHalt := true,
     description := "Illegal escape sequence in text string",
     action := "Use one of \\t, \\n, \\\", \\\\ or \\xHH" },
   { code := Code.unterminatedRegex, category := "Lexical", severity := .high,
     recoverable := false, requiresHalt := true,
     description := "Unterminated regular expression",
     action := "Close the regular expression with '/' before the end of the line" },
   { code := Code.invalidRegexModifier, category := "Lexical", severity := .high,
     recoverable := false, requiresHalt := true,
     description := "Invalid regular expression modifier",
     action := "Only 'i' and 's' may follow the closing '/'" },
   { code := Code.unterminatedComment, category := "Lexical", severity := .high,
     recoverable := false, requiresHalt := true,
     description := "Unterminated block comment",
     action := "Close the comment with '*/'" },
   { code := Code.invalidHexPattern, category := "Lexical", severity := .high,
     recoverable := false, requiresHalt := true,
     description := "Byte pattern rejected by the byte-pattern parser",
     action := "Check nibble pairs, alternations and jumps in the pattern" },
   { code := Code.initializationCompleted, category := "System", severity := .low,
     recoverable := true, requiresHalt := false,
     description := "System initialization completed successfully",
     action := "Continue with tokenization" },
   { code := Code.tokenizationComplete, category := "Lexical", severity := .low,
     recoverable := true, requiresHalt := false,
     description := "Tokenization completed successfully",
     action := "Hand the token stream to the parser" }]

def metadata? (code : String) : Option Metadata := registry.find? fun m => m.code == code

def severity (code : String) : Severity := ((metadata? code).map Metadata.severity).getD .medium

def isRecoverable (code : String) : Bool := ((metadata? code).map Metadata.recoverable).getD true

def requiresHalt (code : String) : Bool := ((metadata? code).map Metadata.requiresHalt).getD false

def description (code : String) : String :=
  ((metadata? code).map Metadata.description).getD "Unknown error"

def action (code : String) : String :=
  ((metadata? code).map Metadata.action).getD "No specific action available"

def category (code : String) : String := ((metadata? code).map Metadata.category).getD "Unknown"

end Code
end Log
end RuleLex
