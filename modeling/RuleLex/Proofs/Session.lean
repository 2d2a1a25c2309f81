/-
The first logger stays.

A program installs preferences and loggers, logs and asks, in any order.  What is
in force is decided by what it did first: `preferencesAfter` are the preferences
that the first action to bring any has brought, and the global logger is the one
of the first action that makes a service global, configured by the preferences in
force just then.

`session_perform` says once what an action does to a session: it fills what was
empty and changes nothing else.  `first_logger_stays` draws the conclusions for
the replies, for what a backend is handed, and for what stays whatever comes
later.
-/
import RuleLex.Session

namespace RuleLex
namespace Session

/-! ## What a program does -/

/-- A call that logs: with an event of its own making, or with a prepared one.
Every call adds details. -/
inductive Entry where
  | error (code message : String) (span : Option Span) (context : List (String × String))
  | success (code message : String) (context : List (String × String))
  | warning (message : String) (context : List (String × String))
  | info (message : String) (context : List (String × String))
  | debug (message : String) (context : List (String × String))
  | prepared (event : Log.Event) (context : List (String × String))
deriving DecidableEq, Repr

/-- The event that a call is about. -/
def Entry.event : Entry → Log.Event
  | .error code message (some span) context =>
    ((Log.Event.error code message).withSpan span).withContext context
  | .error code message none context => (Log.Event.error code message).withContext context
  | .success code message context => (Log.Event.success code message).withContext context
  | .warning message context => (Log.Event.warning message).withContext context
  | .info message context => (Log.Event.info message).withContext context
  | .debug message context => (Log.Event.debug message).withContext context
  | .prepared event context => event.withContext context

/-- A question about the state of logging. -/
inductive Query where
  | isInitialized | debugEnabled | level | preferences | configuredService | summary | diagnostics
deriving DecidableEq, Repr

/-- What a program does with its logging. -/
inductive Action where
  | installPreferences (preferences : LoggingPreferences)
  | startLogging
  | installLogger (service : Log.Service)
  | log (entry : Entry)
  | ask (query : Query)
deriving DecidableEq, Repr

/-- What a program is told. -/
inductive Reply where
  | installed (result : Except InstallError Unit)
  | logged
  | flag (value : Bool)
  | level (value : Option Log.Level)
  | preferences (value : LoggingPreferences)
  | service (value : Log.Service)
  | text (value : String)

/-- What comes of an action: what the program is told, the events that a backend
is handed, each with the service it belongs to, and the session after it. -/
structure Result where
  reply : Reply
  handed : List (Log.Service × Log.Event)
  session : Session

/-- The events that the global logger hands to its backend. -/
def handOver (p : Session) (events : List Log.Event) : List (Log.Service × Log.Event) :=
  p.logger.toList.flatMap fun s => (p.admitted events).map fun e => (s, e)

/-- What a call hands over.  A debug event is not even made when it would be lost. -/
def enter (p : Session) : Entry → List (Log.Service × Log.Event)
  | .debug message context =>
    if p.debugEnabled then p.handOver [(Log.Event.debug message).withContext context] else []
  | entry => p.handOver [entry.event]

def answer (p : Session) : Query → Reply
  | .isInitialized => .flag p.isInitialized
  | .debugEnabled => .flag p.debugEnabled
  | .level => .level p.level?
  | .preferences => .preferences p.preferences
  | .configuredService => .service p.configuredService
  | .summary => .text p.summary
  | .diagnostics => .text p.diagnostics

/-- The result of an installation and of the reports that come with it. -/
def settle (p : Session) (outcome : Except InstallError (Session × List Log.Event)) : Result :=
  match outcome with
  | .ok (after, reports) =>
    { reply := .installed (.ok ()), handed := after.handOver reports, session := after }
  | .error e => { reply := .installed (.error e), handed := [], session := p }

def perform (p : Session) : Action → Result
  | .installPreferences preferences =>
    p.settle ((p.installPreferences preferences).map fun after => (after, []))
  | .startLogging => p.settle p.startLogging
  | .installLogger service => p.settle ((p.installLogger service).map fun after => (after, []))
  | .log entry => { reply := .logged, handed := p.enter entry, session := p }
  | .ask query => { reply := p.answer query, handed := [], session := p }

/-- The session after some actions. -/
def after (p : Session) (actions : List Action) : Session :=
  actions.foldl (fun p a => (p.perform a).session) p

/-! ## What the actions decide -/

/-- The service that preferences ask for. -/
def serviceFor (preferences : LoggingPreferences) : Log.Service where
  level := preferences.minLogLevel
  backend :=
    match preferences.enableConsoleLogging, preferences.useStructuredLogging with
    | false, _ => .silent
    | true, true => .structured
    | true, false => .plain

namespace Action

/-- The preferences that an action brings. -/
def preferences? : Action → Option LoggingPreferences
  | .installPreferences preferences => some preferences
  | _ => none

/-- The service that an action would make global, with some preferences in force. -/
def service? (preferences : LoggingPreferences) : Action → Option Log.Service
  | .startLogging => some (serviceFor preferences)
  | .installLogger service => some service
  | _ => none

/-- The action is to make a service global. -/
def initializes : Action → Bool
  | .startLogging | .installLogger _ => true
  | _ => false

/-- What a logger is handed when it becomes the global one: a report if it was
configured here and takes it. -/
def greeting (service : Log.Service) : Action → List (Log.Service × Log.Event)
  | .startLogging =>
    if service.level.admits .info then [(service, initializationReport)] else []
  | _ => []

end Action

/-- The preferences in force after some actions: the first to be brought, or those
of the environment. -/
def preferencesAfter (env : Environment) (actions : List Action) : LoggingPreferences :=
  (actions.findSome? Action.preferences?).getD (.ofEnvironment env)

variable {p : Session} {action : Action}

theorem initializes_eq_isSome (preferences : LoggingPreferences) (action : Action) :
    action.initializes = (action.service? preferences).isSome := by
  cases action <;> rfl

theorem configuredService_eq (p : Session) : p.configuredService = serviceFor p.preferences := by
  unfold configuredService serviceFor
  cases p.preferences.enableConsoleLogging <;> cases p.preferences.useStructuredLogging <;> rfl

/-! ## One action -/

/-- The limits of this build let logging start. -/
theorem startLogging_eq (p : Session) :
    p.startLogging = (p.installLogger (serviceFor p.preferences)).map fun after =>
      (after, [initializationReport]) := by
  have limits_ok : limits.checkLogging = .ok () := rfl
  rw [startLogging, limits_ok, configuredService_eq]
  cases p.installLogger (serviceFor p.preferences) <;> rfl

theorem handOver_of_logger {service : Log.Service} (h : p.logger = some service)
    (events : List Log.Event) :
    p.handOver events =
      (events.filter fun e => service.level.admits e.level).map fun e => (service, e) := by
  simp only [handOver, admitted, level?, h, Option.map_some, Option.toList_some,
    List.flatMap_singleton]

theorem handOver_singleton {service : Log.Service} (h : p.logger = some service) (e : Log.Event) :
    p.handOver [e] = if service.level.admits e.level then [(service, e)] else [] := by
  rw [handOver_of_logger h, List.filter_cons]
  cases service.level.admits e.level <;> rfl

theorem handOver_of_no_logger (h : p.logger = none) (events : List Log.Event) :
    p.handOver events = [] := by
  rw [handOver, h]
  rfl

theorem handOver_nil (p : Session) : p.handOver [] = [] := by
  cases h : p.logger with
  | none => exact handOver_of_no_logger h []
  | some s => exact handOver_of_logger h []

/-- An action that makes a service global, where there is none. -/
theorem perform_first {service : Log.Service} (h : p.logger = none)
    (hservice : action.service? p.preferences = some service) :
    p.perform action =
      { reply := .installed (.ok ()),
        handed := action.greeting service,
        session := { p with logger := some service } } := by
  have install (s : Log.Service) : p.installLogger s = .ok { p with logger := some s } := by
    rw [installLogger, h]
    rfl
  cases action with
  | startLogging =>
    cases hservice
    rw [perform, startLogging_eq, install]
    simp only [Except.map, settle]
    rw [handOver_singleton rfl]
    rfl
  | installLogger s =>
    cases hservice
    rw [perform, install]
    simp only [Except.map, settle, handOver_nil]
    rfl
  | _ => cases hservice

/-- An action that would make a service global, where there is one. -/
theorem perform_again (h : p.logger.isSome = true) (ha : action.initializes = true) :
    p.perform action =
      { reply := .installed (.error .loggerInstalled), handed := [], session := p } := by
  have refuse (s : Log.Service) : p.installLogger s = .error .loggerInstalled := if_pos h
  cases action with
  | startLogging =>
    rw [perform, startLogging_eq, refuse]
    rfl
  | installLogger s =>
    rw [perform, refuse]
    rfl
  | _ => cases ha

theorem perform_preferences_first (h : p.installed = none) (preferences : LoggingPreferences) :
    p.perform (.installPreferences preferences) =
      { reply := .installed (.ok ()), handed := [],
        session := { p with installed := some preferences } } := by
  rw [perform, installPreferences, h]
  simp only [Option.isSome_none, Bool.false_eq_true, if_false, Except.map, settle, handOver_nil]

theorem perform_preferences_again (h : p.installed.isSome = true)
    (preferences : LoggingPreferences) :
    p.perform (.installPreferences preferences) =
      { reply := .installed (.error .preferencesInstalled), handed := [], session := p } := by
  rw [perform, installPreferences, if_pos h]
  rfl

/-- An action fills what was empty and changes nothing else. -/
theorem session_perform (p : Session) (action : Action) :
    (p.perform action).session =
      { environment := p.environment,
        installed := p.installed.or action.preferences?,
        logger := p.logger.or (action.service? p.preferences) } := by
  have initialization {service : Log.Service} (hpreferences : action.preferences? = none)
      (hservice : action.service? p.preferences = some service) :
      (p.perform action).session =
        { environment := p.environment,
          installed := p.installed.or action.preferences?,
          logger := p.logger.or (action.service? p.preferences) } := by
    rw [hpreferences, hservice, Option.or_none]
    cases hlogger : p.logger with
    | none =>
      rw [perform_first hlogger hservice]
      rfl
    | some s =>
      have initializes : action.initializes = true := by
        rw [initializes_eq_isSome p.preferences, hservice]
        rfl
      rw [perform_again (by rw [hlogger]; rfl) initializes, Option.some_or, ← hlogger]
  cases action with
  | startLogging => exact initialization rfl rfl
  | installLogger service => exact initialization rfl rfl
  | installPreferences preferences =>
    simp only [Action.preferences?, Action.service?, Option.or_none]
    cases hinstalled : p.installed with
    | none =>
      rw [perform_preferences_first hinstalled]
      rfl
    | some old =>
      rw [perform_preferences_again (by rw [hinstalled]; rfl), Option.some_or, ← hinstalled]
  | log | ask => simp only [perform, Action.preferences?, Action.service?, Option.or_none]

/-- A call hands its event over, if the global logger takes it. -/
theorem enter_eq (p : Session) (entry : Entry) : p.enter entry = p.handOver [entry.event] := by
  cases entry with
  | debug message context =>
    rw [enter, Entry.event]
    cases h : p.logger with
    | none =>
      rw [handOver_of_no_logger h]
      exact ite_self _
    | some s =>
      have level : ((Log.Event.debug message).withContext context).level = .debug := rfl
      have enabled : p.debugEnabled = s.level.admits .debug := by
        rw [debugEnabled, level?, h]
        rfl
      rw [enabled, handOver_singleton h, level]
      cases s.level.admits .debug <;> rfl
  | _ => rfl

/-! ## Any actions -/

theorem environment_after (p : Session) (actions : List Action) :
    (p.after actions).environment = p.environment := by
  induction actions generalizing p with
  | nil => rfl
  | cons a actions ih =>
    have step : (p.perform a).session.environment = p.environment := by rw [session_perform]
    exact (ih _).trans step

theorem installed_after (p : Session) (actions : List Action) :
    (p.after actions).installed = p.installed.or (actions.findSome? Action.preferences?) := by
  induction actions generalizing p with
  | nil => exact Option.or_none.symm
  | cons a actions ih =>
    have step : (p.perform a).session.installed = p.installed.or a.preferences? := by
      rw [session_perform]
    have first : (a :: actions).findSome? Action.preferences? =
        a.preferences?.or (actions.findSome? Action.preferences?) := by
      rw [List.findSome?_cons]
      cases a.preferences? <;> rfl
    rw [first, ← Option.or_assoc, ← step]
    exact ih _

/-- A logger is never replaced. -/
theorem logger_after_of_some {service : Log.Service} (h : p.logger = some service)
    (actions : List Action) : (p.after actions).logger = some service := by
  induction actions generalizing p with
  | nil => exact h
  | cons a actions ih =>
    refine ih (p := (p.perform a).session) ?_
    rw [session_perform, h]
    rfl

theorem isSome_logger_after (p : Session) (actions : List Action) :
    (p.after actions).logger.isSome = (p.logger.isSome || actions.any Action.initializes) := by
  induction actions generalizing p with
  | nil => exact (Bool.or_false _).symm
  | cons a actions ih =>
    have step : (p.perform a).session.logger.isSome = (p.logger.isSome || a.initializes) := by
      rw [session_perform, Option.isSome_or, ← initializes_eq_isSome]
    rw [List.any_cons, ← Bool.or_assoc, ← step]
    exact ih _

/-! ## The first logger stays -/

theorem preferences_after (env : Environment) (actions : List Action) :
    ((fresh env).after actions).preferences = preferencesAfter env actions := by
  rw [preferences, installed_after, environment_after]
  rfl

theorem logger_after_eq_none {env : Environment} {before : List Action}
    (h : ∀ a ∈ before, a.initializes = false) : ((fresh env).after before).logger = none := by
  rw [← Option.isNone_iff_eq_none, ← Option.not_isSome, isSome_logger_after]
  simpa [fresh] using h

theorem logger_after_isSome {env : Environment} {before : List Action}
    (h : ∃ a ∈ before, a.initializes = true) :
    ((fresh env).after before).logger.isSome = true := by
  rw [isSome_logger_after, List.any_eq_true.2 h, Bool.or_true]

/-- What a program with some actions behind it can count on. -/
structure Settled (env : Environment) (before : List Action) : Prop where
  /-- The first action that makes a service global succeeds, and the service stays. -/
  first : (∀ a ∈ before, a.initializes = false) →
    ∀ action service, action.service? (preferencesAfter env before) = some service →
      let result := ((fresh env).after before).perform action
      result.reply = .installed (.ok ()) ∧ result.handed = action.greeting service ∧
        ∀ later,
          let p := result.session.after later
          p.logger = some service ∧
            (∀ entry, (p.perform (.log entry)).handed =
              if service.level.admits entry.event.level then [(service, entry.event)] else []) ∧
            ∀ seconds events, p.report seconds events = service.logAll seconds events
  /-- Every other such action is refused, and nothing comes of it. -/
  again : (∃ a ∈ before, a.initializes = true) → ∀ action, action.initializes = true →
    ((fresh env).after before).perform action =
      { reply := .installed (.error .loggerInstalled), handed := [],
        session := (fresh env).after before }
  /-- The first preferences are installed and stay. -/
  firstPreferences : (∀ a ∈ before, a.preferences? = none) → ∀ preferences,
    let result := ((fresh env).after before).perform (.installPreferences preferences)
    result.reply = .installed (.ok ()) ∧ result.handed = [] ∧
      ∀ later, (result.session.after later).preferences = preferences
  /-- All others are refused, and nothing comes of it. -/
  againPreferences : (∃ a ∈ before, a.preferences?.isSome = true) → ∀ preferences,
    ((fresh env).after before).perform (.installPreferences preferences) =
      { reply := .installed (.error .preferencesInstalled), handed := [],
        session := (fresh env).after before }
  /-- Without a global logger nothing is handed over and nothing is written. -/
  silent : (∀ a ∈ before, a.initializes = false) →
    let p := (fresh env).after before
    p.isInitialized = false ∧ p.debugEnabled = false ∧
      (∀ entry, (p.perform (.log entry)).handed = []) ∧
        ∀ seconds events, p.report seconds events = .nothing
  /-- Calls that log and questions leave everything as it is. -/
  idle : ∀ action, action.initializes = false → action.preferences? = none →
    (((fresh env).after before).perform action).session = (fresh env).after before

/-- Whatever a program does, its first logger and its first preferences stay, and
the logger is the one that was asked for when it became global. -/
theorem first_logger_stays (env : Environment) (before : List Action) :
    Settled env before ∧
      InstallError.loggerInstalled.message = "Global logger already initialized" ∧
      initializationReport.code = "I004" ∧ initializationReport.level = .info := by
  refine ⟨?_, rfl, rfl, rfl⟩
  constructor
  · intro none_before action service hservice result
    have empty : ((fresh env).after before).logger = none := logger_after_eq_none none_before
    rw [← preferences_after] at hservice
    have outcome : result = _ := perform_first empty hservice
    rw [outcome]
    refine ⟨rfl, rfl, fun later => ?_⟩
    have stays := logger_after_of_some
      (p := { (fresh env).after before with logger := some service }) rfl later
    refine ⟨stays, fun entry => ?_, fun seconds events => ?_⟩
    · rw [perform, enter_eq, handOver_singleton stays]
    · rw [report, stays]
  · exact fun some_before action haction => perform_again (logger_after_isSome some_before) haction
  · intro none_before preferences result
    have empty : ((fresh env).after before).installed = none := by
      rw [installed_after]
      exact List.findSome?_eq_none_iff.2 none_before
    have outcome : result = _ := perform_preferences_first empty preferences
    rw [outcome]
    refine ⟨rfl, rfl, fun later => ?_⟩
    rw [Session.preferences, installed_after]
    rfl
  · intro some_before preferences
    refine perform_preferences_again ?_ preferences
    rw [installed_after]
    exact List.findSome?_isSome_iff.2 some_before
  · intro none_before p
    have empty : p.logger = none := logger_after_eq_none none_before
    refine ⟨?_, ?_, fun entry => ?_, fun seconds events => ?_⟩
    · rw [isInitialized, empty]
      rfl
    · rw [debugEnabled, level?, empty]
      rfl
    · rw [perform, enter_eq, handOver_of_no_logger empty]
    · rw [report, empty]
  · intro action hinitializes hpreferences
    have none_made : action.service? ((fresh env).after before).preferences = none := by
      rw [← Option.not_isSome_iff_eq_none, ← initializes_eq_isSome, hinitializes]
      exact Bool.false_ne_true
    rw [session_perform, hpreferences, none_made, Option.or_none, Option.or_none]

/-- Preferences that come too late change neither the logger nor each other. -/
example :
    let early : LoggingPreferences := ⟨true, true, .error⟩
    let p := (fresh []).after
      [.installPreferences early, .startLogging, .installPreferences ⟨false, true, .debug⟩,
       .installLogger { level := .debug, backend := .supplied 0 }, .startLogging]
    p.logger = some { level := .error, backend := .structured } ∧ p.installed = some early := by
  decide

end Session
end RuleLex
