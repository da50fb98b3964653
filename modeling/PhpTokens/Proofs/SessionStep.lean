import PhpTokens.Session

/-!
# What one call does to a session

A session has two things that are fixed once, its preferences and its service.
Nearly every call leaves both in place and does no more than two things to
them: it may read the preferences, which fixes them, and it may offer events to
the installed service. `told` is a session after that, and such changes add up
(`told_told`), so that logging a list of events, or a search with all it
reports, is one change again.

Which calls read (`accesses`) and what they offer (`offered`) is listed by call.
The console is the one sink that reads: it asks the preferences about every
event that it would show. With the three calls that set something up this
gives the new preferences (`step_preferences?`) and the new service
(`step_service?`) after any call.
-/

namespace PhpTokens

open Log Settings

namespace Log

/-- The sink after it was given an event. -/
def Sink.take [Limits] (e : Event) : Sink → Sink
  | .console least => .console least
  | .structured least => .structured least
  | .memory b => .memory (b.push e)
  | .custom received => .custom (received.push e)

namespace Service

/-- The service after an event was offered to it. -/
def receive [Limits] (service : Service) (e : Event) : Service :=
  if service.least.admits e.level then { service with sink := service.sink.take e } else service

/-- Whether the service reads the preferences when it is offered an event. -/
def asks (service : Service) (e : Event) : Bool :=
  match service.sink with
  | .console least => service.least.admits e.level && least.admits e.level
  | _ => false

/-- What the service prints when it is offered an event. -/
def prints (service : Service) (console : Bool) (timestamp : String) (e : Event) :
    List Printed :=
  match service.sink with
  | .console _ => if service.asks e && console then [e.printConsole] else []
  | .structured least =>
      if service.least.admits e.level then e.printStructured least timestamp else []
  | .memory _ | .custom _ => []

/-- The service that preferences ask for. -/
def configured (p : LoggingPreferences) : Service :=
  ⟨p.leastLevel, if p.structured then .structured p.leastLevel else .console p.leastLevel⟩

theorem asks_receive [Limits] (service : Service) (e f : Event) :
    (service.receive e).asks f = service.asks f := by
  rw [receive]
  split
  · obtain ⟨least, sink⟩ := service
    cases sink <;> rfl
  · rfl

theorem asks_foldl_receive [Limits] (service : Service) (events : List Event) (f : Event) :
    (events.foldl receive service).asks f = service.asks f := by
  induction events generalizing service with
  | nil => rfl
  | cons e events ih => rw [List.foldl_cons, ih, asks_receive]

end Service

end Log

/-- Whether a search fails although its index lies inside the sequence. -/
def Sequence.failsInside (seq : Sequence) (d : Direction) (i : Int) : Bool :=
  match seq.significantIn d i with
  | .error (.noSignificantToken ..) => true
  | _ => false

namespace Session

variable [Limits]

/-- The preferences that a reader sees. -/
def seen (s : Session) : LoggingPreferences :=
  s.preferences?.getD (.ofEnvironment s.environment)

/-- The session after the preferences were perhaps read, and some events were
offered to the installed service. -/
def told (s : Session) (reads : Bool) (events : List Event) : Session :=
  { s with
    preferences? := if reads then some s.seen else s.preferences?
    service? := s.service?.map fun service => events.foldl Service.receive service }

/-- Whether the installed service reads the preferences when it is offered some
events. -/
def asked (s : Session) (events : List Event) : Bool :=
  s.service?.any fun service => events.any service.asks

theorem told_false_nil (s : Session) : s.told false [] = s := by
  obtain ⟨environment, timestamp, preferences?, service?⟩ := s
  cases service? <;> rfl

theorem seen_told (s : Session) (reads : Bool) (events : List Event) :
    (s.told reads events).seen = s.seen := by
  cases reads <;> rfl

theorem told_told (s : Session) (r q : Bool) (es fs : List Event) :
    (s.told r es).told q fs = s.told (r || q) (es ++ fs) := by
  have hservice : ((s.told r es).told q fs).service? = (s.told (r || q) (es ++ fs)).service? := by
    simp only [told, Option.map_map, Function.comp_def, List.foldl_append]
  have hpreferences :
      ((s.told r es).told q fs).preferences? = (s.told (r || q) (es ++ fs)).preferences? := by
    rw [told, seen_told]
    cases q <;> cases r <;> rfl
  exact (Session.mk.injEq ..).mpr ⟨rfl, rfl, hpreferences, hservice⟩

theorem asked_told (s : Session) (reads : Bool) (es fs : List Event) :
    (s.told reads es).asked fs = s.asked fs := by
  simp only [asked, told, Option.any_map]
  congr 1
  funext service
  congr 1
  funext e
  exact service.asks_foldl_receive es e

omit [Limits] in
theorem asked_cons (s : Session) (e : Event) (es : List Event) :
    s.asked (e :: es) = (s.asked [e] || s.asked es) := by
  cases hservice : s.service? with
  | none => simp [asked, hservice]
  | some service => simp [asked, hservice]

theorem readPreferences_eq (s : Session) : s.readPreferences = (s.told true [], s.seen) := by
  obtain ⟨environment, timestamp, preferences?, service?⟩ := s
  cases preferences? <;> cases service? <;> rfl

theorem configuredService_eq (s : Session) :
    s.configuredService = (s.told true [], .configured s.seen) := by
  rw [configuredService, readPreferences_eq]
  rfl

theorem showOnConsole_eq (s : Session) (least : Level) (e : Event) :
    s.showOnConsole least e = (s.told (least.admits e.level) [],
      if least.admits e.level && s.seen.console then [e.printConsole] else []) := by
  rw [showOnConsole, readPreferences_eq]
  cases least.admits e.level with
  | true => simp
  | false => simp [told_false_nil]

/-- Offering an event to a service, whether it is installed or not. -/
theorem deliver_eq (s : Session) (service : Service) (e : Event) :
    s.deliver service e = (s.told (service.asks e) [], service.receive e,
      service.prints s.seen.console s.timestamp e) := by
  -- Only the console touches the session, and only for an event that passes both levels.
  obtain ⟨least, sink⟩ := service
  rw [deliver, Service.receive]
  cases hadmits : least.admits e.level with
  | true =>
      cases sink with
      | console own => simp [showOnConsole_eq, Service.asks, Service.prints, Sink.take, hadmits]
      | _ => simp [told_false_nil, Service.asks, Service.prints, Sink.take, hadmits]
  | false =>
      cases sink <;> simp [told_false_nil, Service.asks, Service.prints, hadmits]

theorem log_eq (s : Session) (e : Event) :
    s.log e = (s.told (s.asked [e]) [e],
      s.service?.elim [] fun service => service.prints s.seen.console s.timestamp e) := by
  obtain ⟨environment, timestamp, preferences?, service?⟩ := s
  cases service? with
  | none => rfl
  | some service => simp [log, deliver_eq, told, asked]

theorem logAll_fst (s : Session) (events : List Event) :
    (s.logAll events).1 = s.told (s.asked events) events := by
  induction events generalizing s with
  | nil =>
      have hasked : s.asked [] = false := by cases h : s.service? <;> simp [asked, h]
      rw [hasked, told_false_nil]
      rfl
  | cons e events ih =>
      show ((s.log e).1.logAll events).1 = _
      rw [ih, log_eq, asked_told, told_told, ← asked_cons, List.singleton_append]

theorem log_of_service?_eq_none {s : Session} (h : s.service? = none) (e : Event) :
    s.log e = (s, []) := by
  rw [log, h]

theorem logAll_of_service?_eq_none {s : Session} (h : s.service? = none) (events : List Event) :
    s.logAll events = (s, []) := by
  induction events with
  | nil => rfl
  | cons e events ih => simp only [logAll, log_of_service?_eq_none h, ih, List.append_nil]

theorem logFailedSearch_fst (s : Session) (seq : Sequence) (d : Direction) (i : Int) :
    (s.logFailedSearch seq d i).1 =
      s.told true (if s.seen.failedSearches then [seq.failedSearchEvent d i] else []) := by
  rw [logFailedSearch, readPreferences_eq]
  cases h : s.seen.failedSearches with
  | true => simp [h, log_eq, told_told]
  | false => simp [h]

theorem searchIn_fst (s : Session) (seq : Sequence) (d : Direction) (i : Int) :
    (s.searchIn seq d i).1 = s.told (seq.failsInside d i)
      (seq.searchEvents s.seen.failedSearches (seq.significantIn d i)) := by
  rw [searchIn, Sequence.failsInside]
  match seq.significantIn d i with
  | .error (.noSignificantToken d i) => exact s.logFailedSearch_fst seq d i
  | .error (.indexOutOfBounds ..) => exact s.told_false_nil.symm
  | .ok t => exact s.told_false_nil.symm

/-! ## Calls -/

/-- The report of a first set-up. -/
def initialised : Event := .success .loggingInitialized "Global logging system initialized"

/-- The report of a set-up that came too late. -/
def alreadyInstalled : Event :=
  .error .initializationFailure (InitError.serviceInstalled).message

/-- Whether a call sets the preferences or reads them. -/
def accesses (s : Session) : Call → Bool
  | .setPreferences _ | .initLogging | .preferences | .summary | .diagnostics
  | .logConfigured _ => true
  | .install _ | .bufferedEvents | .isInitialized | .isDebugEnabled | .activeLevel
  | .logStructured .. => false
  | .tokenize source => s.asked (PhpTokens.tokenize source (.ofEnvironment s.environment)).events
  | .search source d i =>
      let made := Sequence.ofSource source (.ofEnvironment s.environment)
      s.asked made.events || made.value.toOption.any fun seq => seq.failsInside d i
  | .searchIn seq d i => seq.failsInside d i
  | .log e => s.asked [e]
  | .logConsole least e => least.admits e.level

/-- The events that a call offers to the installed service. -/
def offered (s : Session) : Call → List Event
  | .initLogging => [if s.service?.isSome then alreadyInstalled else initialised]
  | .tokenize source => (PhpTokens.tokenize source (.ofEnvironment s.environment)).events
  | .search source d i =>
      let made := Sequence.ofSource source (.ofEnvironment s.environment)
      made.events ++ made.value.toOption.elim [] fun seq =>
        seq.searchEvents s.seen.failedSearches (seq.significantIn d i)
  | .searchIn seq d i => seq.searchEvents s.seen.failedSearches (seq.significantIn d i)
  | .log e => [e]
  | .setPreferences _ | .install _ | .bufferedEvents | .isInitialized | .isDebugEnabled
  | .activeLevel | .preferences | .summary | .diagnostics | .logConfigured _ | .logConsole ..
  | .logStructured .. => []

/-- The preferences that a call fixes if it is the first to access them. -/
def Call.settles (environment : Environment) : Call → LoggingPreferences
  | .setPreferences p => p
  | _ => .ofEnvironment environment

/-- Whether a call sets up logging. -/
def Call.installs : Call → Bool
  | .initLogging | .install _ => true
  | _ => false

/-- The service that a call installs if there is none. -/
def installed? (s : Session) : Call → Option Service
  | .initLogging => some ((Service.configured s.seen).receive initialised)
  | .install service => some service
  | _ => none

theorem search_fst (s : Session) (source : String) (d : Direction) (i : Int) :
    (s.search source d i).1 =
      s.told (s.accesses (.search source d i)) (s.offered (.search source d i)) := by
  simp only [search, accesses, offered]
  cases hmade : (Sequence.ofSource source (.ofEnvironment s.environment)).value with
  | error e =>
      show (s.logAll _).1 = _
      rw [logAll_fst]
      simp [Except.toOption]
  | ok seq =>
      show ((s.logAll _).1.searchIn seq d i).1 = _
      rw [logAll_fst, searchIn_fst, seen_told, told_told]
      rfl

theorem initLogging_of_isSome {s : Session} (h : s.service?.isSome = true) :
    s.initLogging = (s.told true [alreadyInstalled], .refused .serviceInstalled,
      s.service?.elim [] fun service =>
        service.prints s.seen.console s.timestamp alreadyInstalled) := by
  obtain ⟨service, hservice⟩ := Option.isSome_iff_exists.1 h
  have hstill : (s.told true []).service? = some service := by rw [told, hservice]; rfl
  have hlog := (s.told true []).log_eq alreadyInstalled
  rw [told_told, seen_told, hstill, Bool.true_or, List.nil_append] at hlog
  simp only [initLogging, configuredService_eq, hstill, hservice]
  exact congrArg (fun r => (r.1, Reply.refused .serviceInstalled, r.2)) hlog

theorem initLogging_of_eq_none {s : Session} (h : s.service? = none) :
    s.initLogging.1.preferences? = some s.seen ∧
      s.initLogging.1.service? = some ((Service.configured s.seen).receive initialised) ∧
      s.initLogging.2.1 = .done := by
  have hstill : (s.told true []).service? = none := by rw [told, h]; rfl
  let started : Session := { s.told true [] with service? := some (Service.configured s.seen) }
  have hinit :
      s.initLogging = ((started.log initialised).1, .done, (started.log initialised).2) := by
    simp only [initLogging, configuredService_eq, hstill]
    rfl
  rw [hinit, log_eq]
  refine ⟨?_, rfl, rfl⟩
  -- They were read before there was a service, so its first event finds them fixed.
  simp [started, told, seen]

theorem initLogging_reply (s : Session) :
    s.initLogging.2.1 = if s.service?.isSome then .refused .serviceInstalled else .done := by
  cases hservice : s.service? with
  | none => exact (initLogging_of_eq_none hservice).2.2
  | some service =>
      rw [initLogging_of_isSome (by rw [hservice]; rfl)]
      rfl

omit [Limits] in
theorem install_of_isSome {s : Session} (h : s.service?.isSome = true) (service : Service) :
    s.install service = (s, .refused .serviceInstalled) := by
  obtain ⟨present, hpresent⟩ := Option.isSome_iff_exists.1 h
  rw [install, hpresent]

omit [Limits] in
theorem install_reply (s : Session) (service : Service) :
    (s.install service).2 = if s.service?.isSome then .refused .serviceInstalled else .done := by
  rw [install]
  cases s.service? <;> rfl

omit [Limits] in
theorem setPreferences_reply (s : Session) (p : LoggingPreferences) :
    (s.setPreferences p).2 =
      if s.preferences?.isSome then .refused .preferencesFixed else .done := by
  rw [setPreferences]
  cases s.preferences? <;> rfl

theorem preferences_reply (s : Session) :
    (s.step .preferences).2.1 = .preferences s.readPreferences.2 := rfl

theorem summary_reply (s : Session) :
    (s.step .summary).2.1 = .text (summaryText s.readPreferences.2) := by
  rw [step]

theorem diagnosticsText_congr {s t : Session} (h : s.service? = t.service?)
    (p : LoggingPreferences) : s.diagnosticsText p = t.diagnosticsText p := by
  unfold diagnosticsText
  rw [h]

theorem diagnostics_reply (s : Session) :
    (s.step .diagnostics).2.1 =
      .text (s.readPreferences.1.diagnosticsText s.readPreferences.2) := by
  rw [step]

/-- A call that sets nothing up reads and offers, and no more. -/
theorem step_fst_eq_told (s : Session) {call : Call} (hinstalls : call.installs = false)
    (hsets : ∀ p, call ≠ .setPreferences p) :
    (s.step call).1 = s.told (s.accesses call) (s.offered call) := by
  cases call with
  | setPreferences p => exact absurd rfl (hsets p)
  | initLogging => cases hinstalls
  | install service => cases hinstalls
  | tokenize source =>
      exact s.logAll_fst (PhpTokens.tokenize source (.ofEnvironment s.environment)).events
  | search source d i => exact s.search_fst source d i
  | searchIn seq d i => exact s.searchIn_fst seq d i
  | log e => exact congrArg Prod.fst (s.log_eq e)
  | logConfigured e =>
      show ((s.configuredService.1.deliver s.configuredService.2 e).1 = _)
      rw [configuredService_eq, deliver_eq, told_told]
      rfl
  | logConsole least e => exact congrArg Prod.fst (s.showOnConsole_eq least e)
  | preferences | summary | diagnostics => exact congrArg Prod.fst s.readPreferences_eq
  | bufferedEvents | isInitialized | isDebugEnabled | activeLevel | logStructured =>
      exact s.told_false_nil.symm

/-- Once fixed, the preferences stay; otherwise the first call that accesses
them fixes them. -/
theorem step_preferences? (s : Session) (call : Call) :
    (s.step call).1.preferences? =
      if s.accesses call then some (s.preferences?.getD (call.settles s.environment))
      else s.preferences? := by
  cases call with
  | setPreferences p =>
      show (s.setPreferences p).1.preferences? = _
      rw [setPreferences]
      cases hpreferences : s.preferences? <;> simp [accesses, Call.settles, hpreferences]
  | initLogging =>
      show s.initLogging.1.preferences? = some s.seen
      cases hservice : s.service? with
      | none => exact (initLogging_of_eq_none hservice).1
      | some service =>
          rw [initLogging_of_isSome (by rw [hservice]; rfl)]
          rfl
  | install service =>
      show (s.install service).1.preferences? = s.preferences?
      rw [install]
      cases s.service? <;> rfl
  | _ =>
      rw [step_fst_eq_told s rfl (by simp)]
      rfl

/-- Once installed, the service stays and receives what is offered; otherwise
the first call that installs one installs it. -/
theorem step_service? (s : Session) (call : Call) :
    (s.step call).1.service? =
      match s.service? with
      | some service => some ((s.offered call).foldl Service.receive service)
      | none => s.installed? call := by
  cases call with
  | setPreferences p =>
      show (s.setPreferences p).1.service? = _
      rw [setPreferences]
      cases s.preferences? <;> cases s.service? <;> rfl
  | initLogging =>
      show s.initLogging.1.service? = _
      cases hservice : s.service? with
      | none => exact (initLogging_of_eq_none hservice).2.1
      | some service =>
          rw [initLogging_of_isSome (by rw [hservice]; rfl)]
          simp [told, offered, hservice]
  | install service =>
      show (s.install service).1.service? = _
      rw [install]
      cases hservice : s.service? with
      | none => rfl
      | some service => exact hservice
  | _ =>
      rw [step_fst_eq_told s rfl (by simp), told]
      cases s.service? <;> rfl

end Session

end PhpTokens
