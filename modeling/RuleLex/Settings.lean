/-
Preferences and where they come from.

Preferences change what is reported and how a lexer goes on after an error in a
literal.  Without a value set by the program they come from the environment: a
flag is the word `true` or `false` exactly, and any other value of a variable
counts as none.
-/
import RuleLex.Log.Level

namespace RuleLex

/-- The variables of a run, by name. -/
abbrev Environment := List (String × String)

/-- How a lexer goes on and what it counts and reports. -/
structure LexicalPreferences where
  resetModeOnError : Bool
  collectDetailedMetrics : Bool
  traceModes : Bool
deriving DecidableEq, Repr

/-- What the configured logger writes, and how. -/
structure LoggingPreferences where
  useStructuredLogging : Bool
  enableConsoleLogging : Bool
  minLogLevel : Log.Level
deriving DecidableEq, Repr

/-- All preferences of a run. -/
structure RuntimeConfig where
  lexical : LexicalPreferences
  logging : LoggingPreferences
deriving DecidableEq, Repr

namespace Environment

/-- The value of a variable. -/
def value? (env : Environment) (name : String) : Option String := List.lookup name env

/-- A variable that holds a flag. -/
def flag? (env : Environment) (name : String) : Option Bool :=
  match env.value? name with
  | some "true" => some true
  | some "false" => some false
  | _ => none

end Environment

namespace LexicalPreferences

/-- The preferences of an empty environment. -/
def builtin : LexicalPreferences where
  resetModeOnError := true
  collectDetailedMetrics := true
  traceModes := false

def ofEnvironment (env : Environment) : LexicalPreferences where
  resetModeOnError :=
    (env.flag? "RULEC_LEXICAL_RESET_MODE_ON_ERROR").getD builtin.resetModeOnError
  collectDetailedMetrics :=
    (env.flag? "RULEC_LEXICAL_DETAILED_METRICS").getD builtin.collectDetailedMetrics
  traceModes := (env.flag? "RULEC_LEXICAL_TRACE_MODES").getD builtin.traceModes

end LexicalPreferences

namespace LoggingPreferences

def ofEnvironment (env : Environment) : LoggingPreferences where
  useStructuredLogging := (env.flag? "RULEC_LOGGING_USE_STRUCTURED").getD false
  enableConsoleLogging := (env.flag? "RULEC_LOGGING_ENABLE_CONSOLE").getD false
  minLogLevel := ((env.value? "RULEC_LOGGING_MIN_LEVEL").bind Log.Level.ofSetting?).getD .info

end LoggingPreferences

namespace RuntimeConfig

def ofEnvironment (env : Environment) : RuntimeConfig where
  lexical := .ofEnvironment env
  logging := .ofEnvironment env

end RuntimeConfig
end RuleLex
