import PhpTokens.Log.Buffer
import PhpTokens.Log.Structured

/-!
# Where events go

A service passes events on down to a level and no further. Behind it stands a
sink: the console, which shows events as text, the structured output, which
writes them as lines of JSON, a buffer, or a sink of the caller's own, of which
only what it was given is known. The first two keep a level of their own.
Failures are printed apart from all else.
-/

namespace PhpTokens.Log

/-- Where a line is printed. -/
inductive Stream where
  | output | errors
deriving DecidableEq, Repr

/-- Something printed. -/
structure Printed where
  stream : Stream
  text : String
deriving DecidableEq, Repr

/-- Where events of a level are printed. -/
def Stream.ofLevel : Level → Stream
  | .error => .errors
  | _ => .output

/-- What stands behind a service. -/
inductive Sink where
  | console (least : Level)
  | structured (least : Level)
  | memory (buffer : Buffer)
  | custom (received : Array Event)
deriving DecidableEq, Repr

/-- A sink that is given events down to a level. -/
structure Service where
  least : Level
  sink : Sink
deriving DecidableEq, Repr

namespace Event

/-- The line of an event in a structured output that is kept down to a level. -/
def structuredLine? (e : Event) (least : Level) (timestamp : String) : Option String :=
  if least.admits e.level then some (e.toJsonLine timestamp) else none

/-- What a structured output prints for an event. -/
def printStructured (e : Event) (least : Level) (timestamp : String) : List Printed :=
  (e.structuredLine? least timestamp).toList.map fun line => ⟨.ofLevel e.level, line⟩

/-- What the console prints for an event. -/
def printConsole (e : Event) : Printed := ⟨.ofLevel e.level, e.toText⟩

end Event

end PhpTokens.Log
