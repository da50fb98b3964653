import Mathlib.Data.List.Nodup
import PhpTokens.Log.Structured
import PhpTokens.Proofs.JsonLine
import PhpTokens.Proofs.Lookup

/-!
# What a structured line says

The line of an event is the record of it, written as JSON. Lines can be told
apart (`Json.line_injective`), so what a line says is what the record holds. Its
fields are looked up by name (`Says`). That settles which of them are there: the
action, the span and the context are left out where there is none, but no other
field has their names.

The category, the severity and the action add nothing of their own, since they
follow from level and code. Of a span the record keeps lines and columns.

The context is built detail by detail. A detail changes what is found under its
own name and nothing else (`Context.lookup_insert`), and details with different
names can change places (`Context.insert_comm`). So a sequence of details leaves
the last one of each name, and where the names differ its order leaves no trace.
-/

namespace PhpTokens

/-- The lines and columns where a span begins and ends. -/
def Span.corners (s : Span) : UInt32 × UInt32 × UInt32 × UInt32 :=
  (s.start.line, s.start.column, s.stop.line, s.stop.column)

namespace Log

theorem Level.name_injective {l l' : Level} (h : l.name = l'.name) : l = l' := by
  revert h
  cases l <;> cases l' <;> decide

namespace Context

/-- A new detail is found under its name, and all others as before. -/
theorem lookup_insert (key value : String) (context : Context) (name : String) :
    (context.insert key value).lookup name =
      if name = key then some value else context.lookup name := by
  induction context with
  | nil => rw [insert, lookup_cons_eq_ite]
  | cons d context ih =>
      rw [insert]
      split
      · next heq =>
          rw [lookup_cons_eq_ite, lookup_cons_eq_ite, ← heq]
          split <;> rfl
      · next hne =>
          split
          · rw [lookup_cons_eq_ite]
          · rw [lookup_cons_eq_ite, lookup_cons_eq_ite, ih]
            by_cases hname : name = key
            · rw [if_neg (hname ▸ hne), if_pos hname, if_pos hname]
            · rw [if_neg hname, if_neg hname]

theorem insert_comm {key key' : String} (h : key ≠ key') (value value' : String)
    (context : Context) :
    (context.insert key value).insert key' value' =
      (context.insert key' value').insert key value := by
  -- The two names are compared with each other and with the first name of the context. Only where
  -- both are behind that one does the rest of the context matter.
  induction context with
  | nil => grind [insert]
  | cons d context ih => grind [insert]

/-- The details stand in the order of their names, and no name stands twice. -/
def Ordered (context : Context) : Prop := context.Pairwise fun d d' => d.1 < d'.1

theorem mem_insert {key value : String} {context : Context} {d : String × String}
    (h : d ∈ context.insert key value) : d = (key, value) ∨ d ∈ context := by
  induction context with
  | nil => exact .inl (List.mem_singleton.1 h)
  | cons d' context ih =>
      rw [insert] at h
      split at h
      · rcases List.mem_cons.1 h with rfl | hmem
        · exact .inl rfl
        · exact .inr (List.mem_cons_of_mem _ hmem)
      · split at h
        · exact List.mem_cons.1 h
        · rcases List.mem_cons.1 h with rfl | hmem
          · exact .inr List.mem_cons_self
          · exact (ih hmem).imp id (List.mem_cons_of_mem _)

theorem Ordered.insert {context : Context} (h : context.Ordered) (key value : String) :
    (context.insert key value).Ordered := by
  induction context with
  | nil => exact List.pairwise_singleton _ _
  | cons d context ih =>
      obtain ⟨hd, hrest⟩ := List.pairwise_cons.1 h
      rw [Context.insert]
      split
      · next heq => exact List.pairwise_cons.2 ⟨fun d' hd' => heq ▸ hd d' hd', hrest⟩
      · next hne =>
          split
          · next hlt =>
              refine List.pairwise_cons.2 ⟨?_, h⟩
              intro d' hd'
              rcases List.mem_cons.1 hd' with rfl | hmem
              · exact hlt
              · exact String.lt_trans hlt (hd d' hmem)
          · next hnlt =>
              refine List.pairwise_cons.2 ⟨?_, ih hrest⟩
              intro d' hd'
              rcases mem_insert hd' with rfl | hmem
              · have hge := String.not_lt.1 hnlt
                exact String.not_le.1 fun hle => hne (String.le_antisymm hle hge)
              · exact hd d' hmem

end Context

namespace Event

/-- Of the details given under a name the last one is left. -/
theorem lookup_withDetails (e : Event) (details : List (String × String)) (name : String) :
    (e.withDetails details).context.lookup name =
      (details.reverse.lookup name).or (e.context.lookup name) := by
  induction details generalizing e with
  | nil => rfl
  | cons d details ih =>
      have hstep : e.withDetails (d :: details) = (e.withDetail d.1 d.2).withDetails details := rfl
      rw [hstep, ih, List.reverse_cons, List.lookup_append, Option.or_assoc]
      refine congrArg (Option.or _) ?_
      rw [withDetail, Context.lookup_insert, lookup_cons_eq_ite]
      split <;> rfl

theorem ordered_withDetails {e : Event} (h : e.context.Ordered)
    (details : List (String × String)) : (e.withDetails details).context.Ordered := by
  induction details generalizing e with
  | nil => exact h
  | cons d details ih => exact ih (h.insert d.1 d.2)

/-- Details with different names can be given in any order. -/
theorem withDetails_perm {details details' : List (String × String)}
    (hnames : (details.map Prod.fst).Nodup) (h : details.Perm details') (e : Event) :
    e.withDetails details = e.withDetails details' := by
  refine h.foldl_eq' ?_ e
  intro d hd d' hd' e
  by_cases heq : d = d'
  · rw [heq]
  · have hne : d.1 ≠ d'.1 := fun hname => heq (List.inj_on_of_nodup_map hnames hd hd' hname)
    simp only [withDetail, Context.insert_comm hne]

/-! ## The record of an event -/

/-- A field that is there if it has a value. -/
def given (key : String) (value? : Option Datum) : List (String × Datum) :=
  value?.toList.map (key, ·)

theorem find?_given (key : String) (value? : Option Datum) (name : String) :
    (given key value?).find? (fun f => f.1 = name) =
      if key = name then value?.map (key, ·) else none := by
  cases value? with
  | none => rw [Option.map_none, ite_self]; rfl
  | some v => by_cases h : key = name <;> simp [given, h]

theorem whole_of_mem_given {key : String} {value? : Option Datum} {f : String × Datum}
    (hvalue : ∀ v, value? = some v → v.Whole) (h : f ∈ given key value?) : f.2.Whole := by
  cases value? with
  | none => cases h
  | some v =>
      rw [List.mem_singleton.1 h]
      exact hvalue v rfl

/-- The record of a context, if it is not empty. -/
def contextDatum? (context : Context) : Option Datum :=
  if context.isEmpty then none else some (contextDatum context)

theorem toDatum_eq (e : Event) (timestamp : String) :
    e.toDatum timestamp = .record (given "action" (e.action?.map .text) ++
      [("category", .text e.code.category), ("code", .text e.code.text)] ++
      given "context" (contextDatum? e.context) ++
      [("level", .text e.level.name), ("message", .text e.message),
        ("severity", .text e.code.severity.name)] ++
      given "span" (e.span?.map spanDatum) ++ [("timestamp", .text timestamp)]) := by
  have hcontext : (if e.context.isEmpty then [] else [("context", contextDatum e.context)]) =
      given "context" (contextDatum? e.context) := by
    rw [contextDatum?]
    split <;> rfl
  rw [toDatum, hcontext]
  cases e.action? <;> cases e.span? <;> rfl

/-- The value of a field, if a datum is a record that has it. -/
def at? : Datum → String → Option Datum
  | .record fields, name => Datum.field? fields name
  | _, _ => none

/-- What is found in the record of an event. -/
structure Says (d : Datum) (e : Event) (timestamp : String) : Prop where
  timestamp : at? d "timestamp" = some (.text timestamp)
  level : at? d "level" = some (.text e.level.name)
  code : at? d "code" = some (.text e.code.text)
  message : at? d "message" = some (.text e.message)
  span : at? d "span" = e.span?.map spanDatum
  context : at? d "context" = contextDatum? e.context

theorem says_toDatum (e : Event) (timestamp : String) :
    Says (e.toDatum timestamp) e timestamp := by
  rw [toDatum_eq]
  refine ⟨?_, ?_, ?_, ?_, ?_, ?_⟩ <;>
    simp [at?, Datum.field?, List.find?_append, find?_given, Function.comp_def]

theorem spanDatum_whole (s : Span) : (spanDatum s).Whole := by
  refine .record fun f hf => ?_
  simp only [List.mem_cons, List.not_mem_nil, or_false] at hf
  rcases hf with rfl | rfl | rfl | rfl <;> exact .int _

theorem contextDatum_whole (context : Context) : (contextDatum context).Whole := by
  refine .record fun f hf => ?_
  obtain ⟨d, -, rfl⟩ := List.mem_map.1 hf
  exact .text d.2

theorem toDatum_whole (e : Event) (timestamp : String) : (e.toDatum timestamp).Whole := by
  rw [toDatum_eq]
  refine .record fun f hf => ?_
  simp only [List.mem_append, List.mem_cons, List.not_mem_nil, or_false] at hf
  rcases hf with ((((haction | rfl | rfl) | hcontext) | rfl | rfl | rfl) | hspan) | rfl
  · refine whole_of_mem_given (fun v hv => ?_) haction
    obtain ⟨action, -, rfl⟩ := Option.map_eq_some_iff.1 hv
    exact .text action
  · exact .text _
  · exact .text _
  · refine whole_of_mem_given (fun v hv => ?_) hcontext
    rw [contextDatum?] at hv
    split at hv
    · cases hv
    · cases hv
      exact contextDatum_whole e.context
  · exact .text _
  · exact .text _
  · exact .text _
  · refine whole_of_mem_given (fun v hv => ?_) hspan
    obtain ⟨span, -, rfl⟩ := Option.map_eq_some_iff.1 hv
    exact spanDatum_whole span
  · exact .text _

theorem spanDatum_eq_iff {s s' : Span} : spanDatum s = spanDatum s' ↔ s.corners = s'.corners := by
  simp only [spanDatum, Span.corners, Datum.nat, Datum.record.injEq, Datum.int.injEq,
    List.cons.injEq, Prod.mk.injEq, true_and, and_true, Int.natCast_inj, UInt32.toNat_inj]
  grind

theorem map_spanDatum_eq_iff {o o' : Option Span} :
    o.map spanDatum = o'.map spanDatum ↔ o.map Span.corners = o'.map Span.corners := by
  cases o <;> cases o' <;> simp [spanDatum_eq_iff]

theorem contextDatum?_injective {context context' : Context}
    (h : contextDatum? context = contextDatum? context') : context = context' := by
  have hinj : ∀ d d' : String × String,
      (d.1, Datum.text d.2) = (d'.1, Datum.text d'.2) → d = d' := by
    intro d d' heq
    obtain ⟨hname, hvalue⟩ := Prod.mk.inj heq
    exact Prod.ext hname (Datum.text.inj hvalue)
  cases context with
  | nil =>
      cases context' with
      | nil => rfl
      | cons d' context' => cases h
  | cons d context =>
      cases context' with
      | nil => cases h
      | cons d' context' =>
          exact List.map_injective_iff.2 hinj (Datum.record.inj (Option.some.inj h))

/-- The record of an event holds its level, code, message, places and context, and nothing
that does not follow from them. -/
theorem toDatum_eq_iff {e e' : Event} {timestamp timestamp' : String} :
    e.toDatum timestamp = e'.toDatum timestamp' ↔
      timestamp = timestamp' ∧ e.level = e'.level ∧ e.code = e'.code ∧ e.message = e'.message ∧
        e.span?.map Span.corners = e'.span?.map Span.corners ∧ e.context = e'.context := by
  refine ⟨fun h => ?_, ?_⟩
  · have hrecord := says_toDatum e timestamp
    have hrecord' := says_toDatum e' timestamp'
    rw [← h] at hrecord'
    have htext : ∀ {o : Option Datum} {s s' : String}, o = some (.text s) → o = some (.text s') →
        s = s' := fun hs hs' => Datum.text.inj (Option.some.inj (hs.symm.trans hs'))
    exact ⟨htext hrecord.timestamp hrecord'.timestamp,
      Level.name_injective (htext hrecord.level hrecord'.level),
      congrArg Code.mk (htext hrecord.code hrecord'.code),
      htext hrecord.message hrecord'.message,
      map_spanDatum_eq_iff.1 (hrecord.span.symm.trans hrecord'.span),
      contextDatum?_injective (hrecord.context.symm.trans hrecord'.context)⟩
  · rintro ⟨rfl, hlevel, hcode, hmessage, hspan, hcontext⟩
    have haction : e.action? = e'.action? := by rw [action?, action?, hlevel, hcode]
    rw [toDatum_eq, toDatum_eq, haction, hlevel, hcode, hmessage, map_spanDatum_eq_iff.2 hspan,
      hcontext]

theorem toJsonLine_eq_iff {e e' : Event} {timestamp timestamp' : String} :
    e.toJsonLine timestamp = e'.toJsonLine timestamp' ↔
      e.toDatum timestamp = e'.toDatum timestamp' :=
  ⟨Json.line_injective (toDatum_whole e timestamp) (toDatum_whole e' timestamp'),
    congrArg Json.line⟩

/-- The line of an event has no control character, and tells everything about the event that is
not lost with the offsets of its span. The context holds the last value given under each name, so
that details with different names can be given in any order. -/
theorem structuredLine_unambiguous :
    (∀ (e : Event) (timestamp : String), ∀ c ∈ (e.toJsonLine timestamp).toList, 32 ≤ c.toNat) ∧
    (∀ (e e' : Event) (timestamp : String),
      e.toJsonLine timestamp = e'.toJsonLine timestamp ↔
        e.level = e'.level ∧ e.code = e'.code ∧ e.message = e'.message ∧
          e.span?.map Span.corners = e'.span?.map Span.corners ∧ e.context = e'.context) ∧
    (∀ (e : Event) (details : List (String × String)) (name : String),
      (e.withDetails details).context.lookup name =
        (details.reverse.lookup name).or (e.context.lookup name)) ∧
    (∀ (e : Event) (details : List (String × String)), e.context.Ordered →
      (e.withDetails details).context.Ordered) ∧
    (∀ (e : Event) (details details' : List (String × String)),
      (details.map Prod.fst).Nodup → details.Perm details' →
        (e.withDetails details).toText = (e.withDetails details').toText ∧
          ∀ timestamp, (e.withDetails details).toJsonLine timestamp =
            (e.withDetails details').toJsonLine timestamp) := by
  refine ⟨?_, ?_, lookup_withDetails, fun e details h => ordered_withDetails h details, ?_⟩
  · intro e timestamp c hc
    rw [toJsonLine, Json.line, String.toList_ofList] at hc
    exact of_decide_eq_true
      (List.all_eq_true.1 (Json.all_isPrintable_write (toDatum_whole e timestamp)) c hc)
  · intro e e' timestamp
    rw [toJsonLine_eq_iff, toDatum_eq_iff]
    exact and_iff_right rfl
  · intro e details details' hnames hperm
    rw [withDetails_perm hnames hperm]
    exact ⟨rfl, fun _ => rfl⟩

/-- Two details that change places, one of them a quote. -/
theorem structuredLine_unambiguous_swapped :
    ([("line", "1"), ("found", "\"")].map Prod.fst).Nodup ∧
      [("line", "1"), ("found", "\"")].Perm [("found", "\""), ("line", "1")] ∧
      ((info "Quote").withDetails [("line", "1"), ("found", "\"")]).toText =
        ((info "Quote").withDetails [("found", "\""), ("line", "1")]).toText := by
  have hnames : ([("line", "1"), ("found", "\"")].map Prod.fst).Nodup := by decide
  have hperm : [("line", "1"), ("found", "\"")].Perm [("found", "\""), ("line", "1")] :=
    .swap _ _ []
  obtain ⟨-, -, -, -, horder⟩ := structuredLine_unambiguous
  exact ⟨hnames, hperm, (horder (info "Quote") _ _ hnames hperm).1⟩

end Event

end Log

end PhpTokens
