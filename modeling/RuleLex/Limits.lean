/-
The five numbers a build fixes.

`Limits.check` is what a build accepts, `Limits.checkLogging` what the program
asks of its logging limits when it starts, and `Limits.constants` the text of
the constants a build writes.  `limits` is the set this library is built with.
-/

namespace RuleLex

/-- The limits of a build. -/
structure Limits where
  maxIdentifierLength : Nat
  maxLiteralSize : Nat
  maxNestingDepth : Nat
  logBufferSize : Nat
  maxLogMessageLength : Nat
deriving DecidableEq, Repr

/-- The limits in force. -/
def limits : Limits where
  maxIdentifierLength := 128
  maxLiteralSize := 8192
  maxNestingDepth := 64
  logBufferSize := 10000
  maxLogMessageLength := 4096

namespace Limits

/-- The largest literal a build may allow: a lexer keeps a single buffer for
the literal it is reading. -/
def absoluteMaxLiteralSize : Nat := 16 * 1024 * 1024

/-- The deepest nesting of alternations a build may allow. -/
def absoluteMaxNestingDepth : Nat := 1024

/-- A reason to refuse a set of limits. -/
inductive Violation where
  | identifierLength
  | literalSize
  | nestingDepth
  | bufferSize
  | productionMessageLength
deriving DecidableEq, Repr

namespace Violation

def message : Violation → String
  | .identifierLength => "LIMITS: max_identifier_length cannot be zero"
  | .literalSize => s!"LIMITS: max_literal_size must be in 1..={absoluteMaxLiteralSize}"
  | .nestingDepth => s!"LIMITS: max_hex_nesting_depth must be in 1..={absoluteMaxNestingDepth}"
  | .bufferSize => "LIMITS: log_buffer_size must be in 100..=100000"
  | .productionMessageLength => "PRODUCTION: max_log_message_length too high for production"

end Violation

/-- The first limit a build refuses.  Only the production profile bounds the
length of log messages. -/
def check (profile : String) (l : Limits) : Except Violation Unit :=
  if l.maxIdentifierLength = 0 then .error .identifierLength
  else if l.maxLiteralSize = 0 ∨ absoluteMaxLiteralSize < l.maxLiteralSize then
    .error .literalSize
  else if l.maxNestingDepth = 0 ∨ absoluteMaxNestingDepth < l.maxNestingDepth then
    .error .nestingDepth
  else if l.logBufferSize < 100 ∨ 100000 < l.logBufferSize then .error .bufferSize
  else if profile = "production" ∧ 4096 < l.maxLogMessageLength then
    .error .productionMessageLength
  else .ok ()

/-- A reason for the program not to start logging. -/
inductive LoggingFault where
  | noBuffer
  | shortMessages (length : Nat)
deriving DecidableEq, Repr

def LoggingFault.message : LoggingFault → String
  | .noBuffer => "Log buffer size must be positive"
  | .shortMessages n => s!"Max log message length too small: {n}"

/-- What the program asks of its logging limits when it starts. -/
def checkLogging (l : Limits) : Except LoggingFault Unit :=
  if l.logBufferSize = 0 then .error .noBuffer
  else if l.maxLogMessageLength < 64 then .error (.shortMessages l.maxLogMessageLength)
  else .ok ()

/-- The constants a build writes for a profile. -/
def constants (profile : String) (l : Limits) : String :=
  String.intercalate "\n"
    ["",
     "// Generated compile-time constants from TOML configuration",
     s!"// Profile: {profile}",
     "// DO NOT EDIT - Generated by build.rs",
     "",
     "pub mod compile_time \x7b",
     "    pub mod lexical \x7b",
     s!"        pub const MAX_IDENTIFIER_LENGTH: usize = {l.maxIdentifierLength};",
     s!"        pub const MAX_LITERAL_SIZE: usize = {l.maxLiteralSize};",
     s!"        pub const MAX_HEX_NESTING_DEPTH: usize = {l.maxNestingDepth};",
     "    \x7d",
     "",
     "    pub mod logging \x7b",
     s!"        pub const LOG_BUFFER_SIZE: usize = {l.logBufferSize};",
     s!"        pub const MAX_LOG_MESSAGE_LENGTH: usize = {l.maxLogMessageLength};",
     "    \x7d",
     "\x7d",
     ""]

end Limits
end RuleLex
