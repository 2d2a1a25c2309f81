/-
The logging of a running program.

A session is one run of the program.  It has at most one set of installed
logging preferences and at most one global logger; the first successful
installation of each is the last.  The configured service is made from the
installed preferences, or from the environment when there are none.  Without a
global logger every report is lost.
-/
import RuleLex.Lexer.Run
import RuleLex.Limits
import RuleLex.Log.Service
import RuleLex.Settings

namespace RuleLex

/-- The state of a run that logging depends on. -/
structure Session where
  environment : Environment
  installed : Option LoggingPreferences
  logger : Option Log.Service
deriving Repr

/-- A reason to refuse an installation. -/
inductive InstallError where
  | preferencesInstalled
  | loggerInstalled
  | badLimits (fault : Limits.LoggingFault)
deriving DecidableEq, Repr

def InstallError.message : InstallError → String
  | .preferencesInstalled => "Runtime preferences already initialized"
  | .loggerInstalled => "Global logger already initialized"
  | .badLimits fault => s!"Configuration validation failed: {fault.message}"

/-- How the library was built. -/
structure Build where
  profile : String
  directory : String
deriving DecidableEq, Repr

/-- The build of this library. -/
def build : Build where
  profile := "development"
  directory := "config"

/-- The file the limits of a build come from. -/
def Build.source (b : Build) : String := s!"Generated from {b.directory}/{b.profile}.toml"

namespace Session

/-- A session in which nothing has been installed. -/
def fresh (environment : Environment) : Session where
  environment := environment
  installed := none
  logger := none

/-! ## Preferences -/

/-- Installs logging preferences for the loggers configured from now on. -/
def installPreferences (p : Session) (preferences : LoggingPreferences) :
    Except InstallError Session :=
  if p.installed.isSome then .error .preferencesInstalled
  else .ok { p with installed := some preferences }

/-- The logging preferences in force. -/
def preferences (p : Session) : LoggingPreferences :=
  p.installed.getD (.ofEnvironment p.environment)

/-- The service that the preferences ask for.  Without console output it writes
nothing. -/
def configuredService (p : Session) : Log.Service where
  level := p.preferences.minLogLevel
  backend :=
    if !p.preferences.enableConsoleLogging then .silent
    else if p.preferences.useStructuredLogging then .structured
    else .plain

/-! ## The global logger -/

def isInitialized (p : Session) : Bool := p.logger.isSome

/-- The level of the global logger. -/
def level? (p : Session) : Option Log.Level := p.logger.map Log.Service.level

/-- A debug event would reach the global logger. -/
def debugEnabled (p : Session) : Bool := p.level?.any fun l => l.admits .debug

/-- The events that the global logger takes. -/
def admitted (p : Session) (events : List Log.Event) : List Log.Event :=
  match p.level? with
  | some l => events.filter fun e => l.admits e.level
  | none => []

/-- What the global logger writes for some events. -/
def report (p : Session) (seconds : Nat) (events : List Log.Event) : Log.Output :=
  match p.logger with
  | some s => s.logAll seconds events
  | none => .nothing

/-- Makes a service the global logger. -/
def installLogger (p : Session) (service : Log.Service) : Except InstallError Session :=
  if p.logger.isSome then .error .loggerInstalled
  else .ok { p with logger := some service }

/-- The report of a global logger that has just been configured. -/
def initializationReport : Log.Event :=
  .success Log.Code.initializationCompleted "Global logging system initialized"

/-- Makes the configured service the global logger, which then gets its first
report. -/
def startLogging (p : Session) : Except InstallError (Session × List Log.Event) :=
  match limits.checkLogging with
  | .error fault => .error (.badLimits fault)
  | .ok () =>
    match p.installLogger p.configuredService with
    | .error e => .error e
    | .ok after => .ok (after, [initializationReport])

/-! ## Diagnostics -/

/-- The logging configuration in a few lines. -/
def summary (p : Session) : String :=
  String.intercalate "\n"
    ["Logging Configuration:",
     s!"- Log buffer size: {limits.logBufferSize}",
     s!"- Max message length: {limits.maxLogMessageLength}",
     s!"- Min log level: {p.preferences.minLogLevel.label}",
     s!"- Structured logging: {p.preferences.useStructuredLogging}",
     s!"- Console logging: {p.preferences.enableConsoleLogging}"]

/-- The state of the global logger and the logging configuration. -/
def diagnostics (p : Session) : String :=
  let active :=
    match p.level? with
    | some l => s!"Active level: {l.label}\n"
    | none => ""
  "=== Logging System Diagnostics ===\n" ++ s!"Initialized: {p.isInitialized}\n" ++ active
    ++ "\n" ++ p.summary

/-- The first lexical code that is not registered. -/
def unregisteredCode? : Option String :=
  Log.Code.lexical.find? fun c => (Log.Code.metadata? c).isNone

/-- The report that states the lexical limits, made once every lexical code has
been found in the registry. -/
def checkCodes : Except String Log.Event :=
  match unregisteredCode? with
  | some code => .error s!"Lexical error code {code} not found in metadata registry"
  | none =>
    .ok ((Log.Event.debug "Lexical limits").withContext
      [("max_identifier_length", toString limits.maxIdentifierLength),
       ("max_literal_size", toString limits.maxLiteralSize)])

/-! ## Lexing -/

/-- A lexer with the preferences of the environment and the stock reader of byte
patterns. -/
def lexer (p : Session) (source : List UInt8) : Lexer :=
  .new source (.ofEnvironment p.environment) Pattern.parse

end Session
end RuleLex
