import PhpTokens.Log.Event

/-!
# A bounded log

A buffer keeps the latest events, in the order of their arrival, and forgets
the oldest once it is full.
-/

namespace PhpTokens.Log

/-- The latest events, the oldest first. -/
structure Buffer where
  events : Array Event := #[]
deriving DecidableEq, Repr

namespace Buffer

/-- A buffer with nothing in it. -/
def empty : Buffer := {}

/-- Number of events in the buffer. -/
def size (b : Buffer) : Nat := b.events.size

/-- The buffer after one more event. A full buffer makes room for it. -/
def push [Limits] (b : Buffer) (e : Event) : Buffer :=
  if b.events.size < Limits.bufferedEvents then ⟨b.events.push e⟩
  else ⟨(b.events.extract (b.events.size + 1 - Limits.bufferedEvents) b.events.size).push e⟩

/-- The failures in the buffer. -/
def errors (b : Buffer) : Array Event := b.events.filter fun e => e.level = .error

/-- The events with a code. -/
def withCode (b : Buffer) (code : Code) : Array Event := b.events.filter fun e => e.code = code

/-- Whether a failure with a code is in the buffer. -/
def hasError (b : Buffer) (code : Code) : Bool :=
  b.events.any fun e => e.level = .error ∧ e.code = code

/-- Whether a notice with a code is in the buffer. -/
def hasSuccess (b : Buffer) (code : Code) : Bool :=
  b.events.any fun e => e.level = .info ∧ e.code = code

end Buffer

/-- The events that a buffer behind a service is given, or its emptying. -/
inductive BufferCall where
  | offer (e : Event)
  | record (e : Event)
  | clear
deriving DecidableEq, Repr

namespace BufferCall

/-- The buffer after a call. A service that is kept down to a level offers only
what that level admits; a direct record is always kept. -/
def apply [Limits] (least : Level) (b : Buffer) : BufferCall → Buffer
  | .offer e => if least.admits e.level then b.push e else b
  | .record e => b.push e
  | .clear => .empty

end BufferCall

end PhpTokens.Log
