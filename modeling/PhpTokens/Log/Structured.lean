import PhpTokens.Log.Event
import PhpTokens.Record.Json

/-!
# Events as lines of JSON

A structured event is a record with its fields in the order of their names. The
time of an event is not part of it: whoever writes the line supplies the text.
The action is given for failures only, and a span or a context only if there is
one.
-/

namespace PhpTokens.Log.Event

/-- The record of the places where a span begins and ends. -/
def spanDatum (span : Span) : Datum :=
  .record [("end_column", .nat span.stop.column.toNat), ("end_line", .nat span.stop.line.toNat),
    ("start_column", .nat span.start.column.toNat), ("start_line", .nat span.start.line.toNat)]

/-- The record of a context. -/
def contextDatum (context : Context) : Datum :=
  .record (context.map fun d => (d.1, .text d.2))

/-- The record of an event. -/
def toDatum (e : Event) (timestamp : String) : Datum :=
  let action := e.action?.toList.map fun a => ("action", Datum.text a)
  let context := if e.context.isEmpty then [] else [("context", contextDatum e.context)]
  let span := e.span?.toList.map fun s => ("span", spanDatum s)
  .record (action ++
    [("category", .text e.code.category), ("code", .text e.code.text)] ++ context ++
    [("level", .text e.level.name), ("message", .text e.message),
      ("severity", .text e.code.severity.name)] ++ span ++
    [("timestamp", .text timestamp)])

/-- The event as a line of JSON. -/
def toJsonLine (e : Event) (timestamp : String) : String := Json.line (e.toDatum timestamp)

end PhpTokens.Log.Event
