/-
The stored form of preferences.
-/
import RuleLex.Settings
import RuleLex.Stored.Basic

namespace RuleLex

instance : Stored Log.Level where
  toJson l := .string l.name
  ofJson? v := (Stored.unitVariant? v).bind fun name => Log.Level.all.find? (·.name == name)

namespace LexicalPreferences

def toJson (p : LexicalPreferences) : Json :=
  .object
    [("collect_detailed_metrics", .bool p.collectDetailedMetrics),
     ("reset_mode_on_error", .bool p.resetModeOnError),
     ("trace_modes", .bool p.traceModes)]

def ofJson? (v : Json) : Option LexicalPreferences :=
  match Stored.fields? ["reset_mode_on_error", "collect_detailed_metrics", "trace_modes"] v with
  | some [some reset, some detailed, some trace] =>
    match Stored.bool? reset, Stored.bool? detailed, Stored.bool? trace with
    | some reset, some detailed, some trace =>
      some { resetModeOnError := reset, collectDetailedMetrics := detailed, traceModes := trace }
    | _, _, _ => none
  | _ => none

end LexicalPreferences

instance : Stored LexicalPreferences where
  toJson := LexicalPreferences.toJson
  ofJson? := LexicalPreferences.ofJson?

namespace LoggingPreferences

def toJson (p : LoggingPreferences) : Json :=
  .object
    [("enable_console_logging", .bool p.enableConsoleLogging),
     ("min_log_level", Stored.toJson p.minLogLevel),
     ("use_structured_logging", .bool p.useStructuredLogging)]

def ofJson? (v : Json) : Option LoggingPreferences :=
  match Stored.fields? ["use_structured_logging", "enable_console_logging", "min_log_level"] v with
  | some [some structured, some console, some level] =>
    match Stored.bool? structured, Stored.bool? console, Stored.ofJson? level with
    | some structured, some console, some level =>
      some
        { useStructuredLogging := structured, enableConsoleLogging := console,
          minLogLevel := level }
    | _, _, _ => none
  | _ => none

end LoggingPreferences

instance : Stored LoggingPreferences where
  toJson := LoggingPreferences.toJson
  ofJson? := LoggingPreferences.ofJson?

instance : Stored RuntimeConfig where
  toJson c := .object [("lexical", c.lexical.toJson), ("logging", c.logging.toJson)]
  ofJson? v :=
    match Stored.fields? ["lexical", "logging"] v with
    | some [some lexical, some logging] =>
      match LexicalPreferences.ofJson? lexical, LoggingPreferences.ofJson? logging with
      | some lexical, some logging => some { lexical := lexical, logging := logging }
      | _, _ => none
    | _ => none

end RuleLex
