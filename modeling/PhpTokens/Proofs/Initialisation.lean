import PhpTokens.Proofs.SessionStep

/-!
# Preferences and logging are set up once

Preferences and service are each fixed by whichever call comes first, and many
calls may be that one: preferences are also fixed by being read, and reading
happens in places that have other things to do. So the rule is one about
histories. A `Moment` is a call with the environment and the time at which it is
made; both may change from one call to the next. A history begins in a session
where nothing is fixed (`fresh`), and what is answered to a call of it depends on
the session after the calls before (`run_append_cons`).

Both fixed things are followed through a history by induction over it, from
what one call does to them. Whether they are fixed can then be read off the
calls (`isSome_preferences?_after`, `isSome_service?_after`): some call accessed
the preferences, some call set up logging. The service keeps its place from
then on and changes only by what it receives, which is the events offered to it
in their order (`service?_after`).
-/

namespace PhpTokens

open Log Settings

namespace Session

variable [Limits]

/-- Whether some call of a history sets or reads the preferences. -/
def accessed (s : Session) : List Moment → Bool
  | [] => false
  | m :: history => (s.atMoment m).accesses m.call || (s.stepAt m).1.accessed history

/-- The events that the calls of a history offer, in their order. -/
def offeredIn (s : Session) : List Moment → List Event
  | [] => []
  | m :: history => (s.atMoment m).offered m.call ++ (s.stepAt m).1.offeredIn history

/-- Whether some call of a history sets up logging. -/
def setUp (history : List Moment) : Bool := history.any fun m => m.call.installs

theorem after_cons (s : Session) (m : Moment) (history : List Moment) :
    s.after (m :: history) = (s.stepAt m).1.after history := rfl

theorem stepAt_preferences? (s : Session) (m : Moment) :
    (s.stepAt m).1.preferences? =
      if (s.atMoment m).accesses m.call then
        some (s.preferences?.getD (m.call.settles m.environment))
      else s.preferences? :=
  (s.atMoment m).step_preferences? m.call

theorem stepAt_service? (s : Session) (m : Moment) :
    (s.stepAt m).1.service? =
      match s.service? with
      | some service => some (((s.atMoment m).offered m.call).foldl Service.receive service)
      | none => (s.atMoment m).installed? m.call :=
  (s.atMoment m).step_service? m.call

/-! ## Along a history -/

theorem run_append (s : Session) (history later : List Moment) :
    s.run (history ++ later) = s.run history ++ (s.after history).run later := by
  induction history generalizing s with
  | nil => rfl
  | cons m history ih => exact congrArg ((s.reply m, s.printed m) :: ·) (ih _)

theorem length_run (s : Session) (history : List Moment) :
    (s.run history).length = history.length := by
  induction history generalizing s with
  | nil => rfl
  | cons m history ih => exact congrArg (· + 1) (ih _)

/-- Each answer of a run is that of the session after the calls before it. -/
theorem run_append_cons (s : Session) (history : List Moment) (m : Moment)
    (later : List Moment) :
    (s.run (history ++ m :: later))[history.length]? =
      some ((s.after history).reply m, (s.after history).printed m) := by
  rw [run_append, List.getElem?_append_right (Nat.le_of_eq (s.length_run history)),
    length_run, Nat.sub_self]
  rfl

theorem preferences?_after {s : Session} {p : LoggingPreferences} (h : s.preferences? = some p)
    (history : List Moment) : (s.after history).preferences? = some p := by
  induction history generalizing s with
  | nil => exact h
  | cons m history ih =>
      rw [after_cons]
      refine ih ?_
      rw [stepAt_preferences?, h, Option.getD_some, ite_self]

theorem isSome_preferences?_after (s : Session) (history : List Moment) :
    (s.after history).preferences?.isSome = (s.preferences?.isSome || s.accessed history) := by
  induction history generalizing s with
  | nil => exact (Bool.or_false _).symm
  | cons m history ih =>
      rw [after_cons, ih, stepAt_preferences?, accessed]
      cases (s.atMoment m).accesses m.call <;> simp

theorem service?_after {s : Session} {service : Service} (h : s.service? = some service)
    (history : List Moment) :
    (s.after history).service? =
      some ((s.offeredIn history).foldl Service.receive service) := by
  induction history generalizing s service with
  | nil => exact h
  | cons m history ih =>
      have hstep := s.stepAt_service? m
      rw [h] at hstep
      rw [after_cons, ih hstep, offeredIn, List.foldl_append]

theorem isSome_installed? (s : Session) (call : Call) :
    (s.installed? call).isSome = call.installs := by
  cases call <;> rfl

theorem isSome_service?_after (s : Session) (history : List Moment) :
    (s.after history).service?.isSome = (s.service?.isSome || setUp history) := by
  induction history generalizing s with
  | nil => exact (Bool.or_false _).symm
  | cons m history ih =>
      rw [after_cons, ih, stepAt_service?, setUp, setUp, List.any_cons]
      cases s.service? with
      | none => simp only [isSome_installed?, Option.isSome_none, Bool.false_or]
      | some service => simp only [Option.isSome_some, Bool.true_or]

theorem isSome_preferences?_fresh (history : List Moment) :
    (fresh.after history).preferences?.isSome = fresh.accessed history :=
  fresh.isSome_preferences?_after history

theorem isSome_service?_fresh (history : List Moment) :
    (fresh.after history).service?.isSome = setUp history :=
  fresh.isSome_service?_after history

theorem preferences?_fresh_eq_none {history : List Moment} (h : fresh.accessed history = false) :
    (fresh.after history).preferences? = none := by
  rw [← Option.not_isSome_iff_eq_none, isSome_preferences?_fresh, h]
  exact Bool.false_ne_true

theorem service?_fresh_eq_none {history : List Moment} (h : setUp history = false) :
    (fresh.after history).service? = none := by
  rw [← Option.not_isSome_iff_eq_none, isSome_service?_fresh, h]
  exact Bool.false_ne_true

/-! ## Answers -/

theorem reply_installs (s : Session) {m : Moment} (hm : m.call.installs = true) :
    s.reply m = if s.service?.isSome then .refused .serviceInstalled else .done := by
  obtain ⟨env, ts, call⟩ := m
  cases call with
  | initLogging => exact (s.atMoment ⟨env, ts, .initLogging⟩).initLogging_reply
  | install service => exact (s.atMoment ⟨env, ts, .install service⟩).install_reply service
  | _ => cases hm

/-- Every reader sees the preferences `p`, whenever it reads. -/
structure Sees (s : Session) (p : LoggingPreferences) : Prop where
  read : ∀ m, (s.atMoment m).readPreferences = (s.atMoment m, p)
  preferences : ∀ env ts, s.reply ⟨env, ts, .preferences⟩ = .preferences p
  summary : ∀ env ts, s.reply ⟨env, ts, .summary⟩ = .text (summaryText p)
  diagnostics : ∀ env ts, s.reply ⟨env, ts, .diagnostics⟩ = .text (s.diagnosticsText p)

theorem sees_of_preferences? {s : Session} {p : LoggingPreferences}
    (h : s.preferences? = some p) : s.Sees p := by
  have hread : ∀ m, (s.atMoment m).readPreferences = (s.atMoment m, p) := by
    intro m
    have hsame : (s.atMoment m).preferences? = some p := h
    rw [readPreferences, hsame]
  refine ⟨hread, ?_, ?_, ?_⟩
  · intro env ts
    rw [reply, stepAt, preferences_reply, hread]
  · intro env ts
    rw [reply, stepAt, summary_reply, hread]
  · intro env ts
    rw [reply, stepAt, diagnostics_reply, hread]
    exact congrArg Reply.text (diagnosticsText_congr rfl p)

/-! ## The rule -/

/-- How a session goes on, by whether its preferences were accessed before and
whether logging was set up. -/
structure OneShot (s : Session) (accessed setUp : Bool) : Prop where
  preferences_kept : ∀ p later, s.preferences? = some p → (s.after later).preferences? = some p
  service_kept : ∀ service later, s.service? = some service →
    (s.after later).service? = some ((s.offeredIn later).foldl Service.receive service)
  setPreferences_reply : ∀ env ts p, s.reply ⟨env, ts, .setPreferences p⟩ =
    if accessed then .refused .preferencesFixed else .done
  first_access : accessed = false → ∀ m later, (s.atMoment m).accesses m.call = true →
    (s.after (m :: later)).Sees (m.call.settles m.environment)
  installs_reply : ∀ m, m.call.installs = true →
    s.reply m = if setUp then .refused .serviceInstalled else .done
  first_install : setUp = false → ∀ m,
    (s.after [m]).service? = (s.atMoment m).installed? m.call
  late_initLogging : setUp = true → ∃ service, s.service? = some service ∧ ∀ env ts,
    (s.after [⟨env, ts, .initLogging⟩]).service? = some (service.receive alreadyInstalled) ∧
      s.printed ⟨env, ts, .initLogging⟩ = service.prints
        (s.atMoment ⟨env, ts, .initLogging⟩).seen.console ts alreadyInstalled
  late_report : alreadyInstalled.level = .error ∧ alreadyInstalled.code.text = "ERR002"
  late_install : setUp = true → ∀ env ts service,
    s.stepAt ⟨env, ts, .install service⟩ =
      (s.atMoment ⟨env, ts, .install service⟩, .refused .serviceInstalled, [])
  early_log : setUp = false → ∀ env ts e,
    s.stepAt ⟨env, ts, .log e⟩ = (s.atMoment ⟨env, ts, .log e⟩, .nothing, [])
  early_reports : setUp = false → ∀ m events, (s.atMoment m).logAll events = (s.atMoment m, [])

/-- After every history that begins afresh, whatever its calls and their order, preferences and
logging are set up once, by the first call that does so or, for the preferences, reads them. -/
theorem oneShot_after (history : List Moment) :
    OneShot (fresh.after history) (fresh.accessed history) (setUp history) where
  preferences_kept := by
    intro p later h
    exact preferences?_after h later
  service_kept := by
    intro service later h
    exact service?_after h later
  setPreferences_reply := by
    intro env ts p
    rw [← isSome_preferences?_fresh]
    exact ((fresh.after history).atMoment ⟨env, ts, .setPreferences p⟩).setPreferences_reply p
  first_access := by
    intro hfirst m later haccesses
    refine sees_of_preferences? ?_
    rw [after_cons]
    refine preferences?_after ?_ later
    rw [stepAt_preferences?, if_pos haccesses, preferences?_fresh_eq_none hfirst,
      Option.getD_none]
  installs_reply := by
    intro m hm
    rw [reply_installs _ hm, isSome_service?_fresh]
  first_install := by
    intro hfirst m
    have hstep := (fresh.after history).stepAt_service? m
    rw [service?_fresh_eq_none hfirst] at hstep
    exact hstep
  late_initLogging := by
    intro hlate
    obtain ⟨service, hpresent⟩ :=
      Option.isSome_iff_exists.1 ((isSome_service?_fresh history).trans hlate)
    refine ⟨service, hpresent, ?_⟩
    intro env ts
    have hthere : ((fresh.after history).atMoment ⟨env, ts, .initLogging⟩).service? =
        some service := hpresent
    have hinit := initLogging_of_isSome (by rw [hthere]; rfl)
    rw [hthere, Option.elim_some] at hinit
    refine ⟨?_, congrArg (fun r => r.2.2) hinit⟩
    exact (congrArg (fun r => r.1.service?) hinit).trans (by rw [told, hthere])
  late_report := ⟨rfl, rfl⟩
  late_install := by
    intro hlate env ts service
    have hthere : ((fresh.after history).atMoment ⟨env, ts, .install service⟩).service?.isSome =
        true := (isSome_service?_fresh history).trans hlate
    exact congrArg (fun r => (r.1, r.2, [])) (install_of_isSome hthere service)
  early_log := by
    intro hfirst env ts e
    have hthere : ((fresh.after history).atMoment ⟨env, ts, .log e⟩).service? = none :=
      service?_fresh_eq_none hfirst
    exact congrArg (fun r => (r.1, Reply.nothing, r.2)) (log_of_service?_eq_none hthere e)
  early_reports := by
    intro hfirst m events
    have hthere : ((fresh.after history).atMoment m).service? = none :=
      service?_fresh_eq_none hfirst
    exact logAll_of_service?_eq_none hthere events

/-- Along every run that begins afresh preferences and logging are set up once, and each answer of
the run is one that this rule speaks of: that of the session after the calls before. -/
theorem initialisation_oneShot (history : List Moment) :
    OneShot (fresh.after history) (fresh.accessed history) (setUp history) ∧
      ∀ m later, (fresh.run (history ++ m :: later))[history.length]? =
        some ((fresh.after history).reply m, (fresh.after history).printed m) :=
  ⟨oneShot_after history, fresh.run_append_cons history⟩

end Session

end PhpTokens
