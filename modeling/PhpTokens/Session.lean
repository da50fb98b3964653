import PhpTokens.Log.Service
import PhpTokens.Sequence.Report
import PhpTokens.Settings.Preferences

/-!
# Sessions

A session has logging preferences and a service that all events go to. Both are
fixed once: preferences by whoever sets or reads them first, where a reader gets
those of the environment, and the service by whoever installs one first. Before
that events go nowhere. The time of an event is the session's to supply. A history
is a list of calls with the environment and the time of each.
-/

namespace PhpTokens

open Log Settings

/-- A session part way through. -/
structure Session where
  environment : Environment
  timestamp : String
  preferences? : Option LoggingPreferences := none
  service? : Option Service := none

/-- Why something cannot be set up. -/
inductive InitError where
  | preferencesFixed | serviceInstalled
deriving DecidableEq, Repr

/-- The reason as people read it. -/
def InitError.message : InitError → String
  | .preferencesFixed => "Runtime preferences already initialized"
  | .serviceInstalled => "Global logger already initialized"

namespace Session

variable [Limits]

/-- The logging preferences. Reading them fixes them. -/
def readPreferences (s : Session) : Session × LoggingPreferences :=
  match s.preferences? with
  | some p => (s, p)
  | none =>
      let p := LoggingPreferences.ofEnvironment s.environment
      ({ s with preferences? := some p }, p)

/-- Show an event on a console that is kept down to a level. The preferences
decide whether there is a console at all. -/
def showOnConsole (s : Session) (least : Level) (e : Event) : Session × List Printed :=
  if least.admits e.level then
    let (s, p) := s.readPreferences
    (s, if p.console then [e.printConsole] else [])
  else (s, [])

/-- Give an event to a service. -/
def deliver (s : Session) (service : Service) (e : Event) : Session × Service × List Printed :=
  if service.least.admits e.level then
    match service.sink with
    | .console least =>
        let (s, printed) := s.showOnConsole least e
        (s, service, printed)
    | .structured least => (s, service, e.printStructured least s.timestamp)
    | .memory b => (s, { service with sink := .memory (b.push e) }, [])
    | .custom received => (s, { service with sink := .custom (received.push e) }, [])
  else (s, service, [])

/-- Log an event: it goes to the installed service, if there is one. -/
def log (s : Session) (e : Event) : Session × List Printed :=
  match s.service? with
  | none => (s, [])
  | some service =>
      let (s, service, printed) := s.deliver service e
      ({ s with service? := some service }, printed)

/-- Log events one after the other. -/
def logAll (s : Session) : List Event → Session × List Printed
  | [] => (s, [])
  | e :: events =>
      let (s, first) := s.log e
      let (s, more) := s.logAll events
      (s, first ++ more)

/-- The service that the preferences ask for. -/
def configuredService (s : Session) : Session × Service :=
  let (s, p) := s.readPreferences
  (s, ⟨p.leastLevel, if p.structured then .structured p.leastLevel else .console p.leastLevel⟩)

/-- Whether debugging aids would reach the installed service. -/
def debugEnabled (s : Session) : Bool := s.service?.any fun service => service.least.admits .debug

/-- A yes or no as people read it. -/
def flagText (b : Bool) : String := if b then "true" else "false"

/-- The logging preferences as people read them. -/
def summaryText (p : LoggingPreferences) : String :=
  "=== Logging Configuration ===\n" ++
    "Min level: " ++ p.leastLevel.name ++ "\n" ++
    "Structured: " ++ flagText p.structured ++ "\n" ++
    "Console: " ++ flagText p.console ++ "\n" ++
    "Buffer size: " ++ toString Limits.bufferedEvents ++ "\n" ++
    "Source: " ++ Limits.origin ++ "\n"

/-- The state of logging as people read it. -/
def diagnosticsText (s : Session) (p : LoggingPreferences) : String :=
  let active :=
    match s.service? with
    | some service => "Active level: " ++ service.least.name ++ "\n"
    | none => ""
  "=== Logging System Diagnostics ===\n" ++
    "Initialized: " ++ flagText s.service?.isSome ++ "\n" ++ active ++ "\n" ++ summaryText p

/-- What can be asked of a session. -/
inductive Call where
  | setPreferences (p : LoggingPreferences)
  | initLogging
  | install (service : Service)
  | bufferedEvents
  | isInitialized
  | isDebugEnabled
  | activeLevel
  | preferences
  | summary
  | diagnostics
  | tokenize (source : String)
  | search (source : String) (direction : Direction) (index : Int)
  | searchIn (seq : Sequence) (direction : Direction) (index : Int)
  | log (e : Event)
  | logConfigured (e : Event)
  | logConsole (least : Level) (e : Event)
  | logStructured (least : Level) (e : Event)

/-- Install a service over a new buffer. -/
def Call.installBuffer (least : Level) : Call := .install ⟨least, .memory .empty⟩

/-- What a session answers. -/
inductive Reply where
  | done
  | refused (reason : InitError)
  | nothing
  | flag (b : Bool)
  | level (level? : Option Level)
  | events (events? : Option (Array Event))
  | preferences (p : LoggingPreferences)
  | text (s : String)
  | lexed (result : Except LexError Nat)
  | found (result : Except LexError (Except SearchError Token))

/-- Fix the preferences, unless they are fixed already. -/
def setPreferences (s : Session) (p : LoggingPreferences) : Session × Reply :=
  match s.preferences? with
  | some _ => (s, .refused .preferencesFixed)
  | none => ({ s with preferences? := some p }, .done)

/-- Install the service that the preferences ask for. If there is one already,
it is told of the attempt. -/
def initLogging (s : Session) : Session × Reply × List Printed :=
  let (s, service) := s.configuredService
  match s.service? with
  | some _ =>
      let failure :=
        Event.error .initializationFailure (InitError.serviceInstalled).message
      let (s, printed) := s.log failure
      (s, .refused .serviceInstalled, printed)
  | none =>
      let (s, printed) :=
        { s with service? := some service }.log
          (Event.success .loggingInitialized "Global logging system initialized")
      (s, .done, printed)

/-- Install a service, unless there is one already. -/
def install (s : Session) (service : Service) : Session × Reply :=
  match s.service? with
  | some _ => (s, .refused .serviceInstalled)
  | none => ({ s with service? := some service }, .done)

/-- The events in the installed buffer, if one is installed. -/
def bufferedEvents? (s : Session) : Option (Array Event) :=
  match s.service? with
  | some ⟨_, .memory b⟩ => some b.events
  | _ => none

/-- Cut a source into lexemes, under the preferences of the environment. -/
def tokenize (s : Session) (source : String) : Session × Reply × List Printed :=
  let run := PhpTokens.tokenize source (.ofEnvironment s.environment)
  let (s, printed) := s.logAll run.events
  (s, .lexed (run.value.map Array.size), printed)

/-- Log a search that failed inside a sequence, if the preferences ask for it. -/
def logFailedSearch (s : Session) (seq : Sequence) (direction : Direction) (index : Int) :
    Session × List Printed :=
  let (s, p) := s.readPreferences
  if p.failedSearches then s.log (seq.failedSearchEvent direction index) else (s, [])

/-- Search a sequence. -/
def searchIn (s : Session) (seq : Sequence) (direction : Direction) (index : Int) :
    Session × Reply × List Printed :=
  match seq.significantIn direction index with
  | .error (.noSignificantToken d i) =>
      let (s, printed) := s.logFailedSearch seq d i
      (s, .found (.ok (.error (.noSignificantToken d i))), printed)
  | result => (s, .found (.ok result), [])

/-- Search the sequence of a source. -/
def search (s : Session) (source : String) (direction : Direction) (index : Int) :
    Session × Reply × List Printed :=
  let made := Sequence.ofSource source (.ofEnvironment s.environment)
  let (s, printed) := s.logAll made.events
  match made.value with
  | .error e => (s, .found (.error e), printed)
  | .ok seq =>
      let (s, reply, more) := s.searchIn seq direction index
      (s, reply, printed ++ more)

/-- The session after a call, its answer and what was printed. -/
def step (s : Session) : Call → Session × Reply × List Printed
  | .setPreferences p =>
      let (s, reply) := s.setPreferences p
      (s, reply, [])
  | .initLogging => s.initLogging
  | .install service =>
      let (s, reply) := s.install service
      (s, reply, [])
  | .bufferedEvents => (s, .events s.bufferedEvents?, [])
  | .isInitialized => (s, .flag s.service?.isSome, [])
  | .isDebugEnabled => (s, .flag s.debugEnabled, [])
  | .activeLevel => (s, .level (s.service?.map Service.least), [])
  | .preferences =>
      let (s, p) := s.readPreferences
      (s, .preferences p, [])
  | .summary =>
      let (s, p) := s.readPreferences
      (s, .text (summaryText p), [])
  | .diagnostics =>
      let (s, p) := s.readPreferences
      (s, .text (s.diagnosticsText p), [])
  | .tokenize source => s.tokenize source
  | .search source direction index => s.search source direction index
  | .searchIn seq direction index => s.searchIn seq direction index
  | .log e =>
      let (s, printed) := s.log e
      (s, .nothing, printed)
  | .logConfigured e =>
      let (s, service) := s.configuredService
      let (s, _, printed) := s.deliver service e
      (s, .nothing, printed)
  | .logConsole least e =>
      let (s, printed) := s.showOnConsole least e
      (s, .nothing, printed)
  | .logStructured least e => (s, .nothing, e.printStructured least s.timestamp)

/-- A call, and when it is made. -/
structure Moment where
  environment : Environment
  timestamp : String
  call : Call

/-- The session when a call is made. -/
def atMoment (s : Session) (m : Moment) : Session :=
  { s with environment := m.environment, timestamp := m.timestamp }

/-- The session after a call, its answer and what was printed. -/
def stepAt (s : Session) (m : Moment) : Session × Reply × List Printed :=
  (s.atMoment m).step m.call

/-- The answer to a call. -/
def reply (s : Session) (m : Moment) : Reply := (s.stepAt m).2.1

/-- What is printed while a call is answered. -/
def printed (s : Session) (m : Moment) : List Printed := (s.stepAt m).2.2

/-- The session after some calls. -/
def after (s : Session) (history : List Moment) : Session :=
  history.foldl (fun s m => (s.stepAt m).1) s

/-- A session in which nothing was called. -/
def fresh : Session := { environment := [], timestamp := "" }

/-- The answers of a session to the calls of a history, with what was printed. -/
def run (s : Session) : List Moment → List (Reply × List Printed)
  | [] => []
  | m :: history =>
      let (s, reply, printed) := s.stepAt m
      (reply, printed) :: s.run history

end Session

end PhpTokens
