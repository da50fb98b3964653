import PhpTokens.Code
import PhpTokens.Limits
import PhpTokens.Position

/-!
# Events

What happens is reported as events. An event has a level, a code, a message
that is cut to a fixed number of bytes, perhaps a place in a source, and a
context: named details in the order of their names, where a detail given again
replaces the earlier one.
-/

namespace PhpTokens.Log

/-- How much an event matters. -/
inductive Level where
  | error | warning | info | debug
deriving DecidableEq, Repr

namespace Level

/-- The level that matters most has rank zero. -/
def rank : Level → Nat
  | .error => 0
  | .warning => 1
  | .info => 2
  | .debug => 3

/-- The level as it is shown in a log. -/
def name : Level → String
  | .error => "ERROR"
  | .warning => "WARN"
  | .info => "INFO"
  | .debug => "DEBUG"

/-- The name under which a level is written in records. -/
def label : Level → String
  | .error => "error"
  | .warning => "warning"
  | .info => "info"
  | .debug => "debug"

/-- Every level. -/
def all : List Level := [.error, .warning, .info, .debug]

/-- The level that a record names. -/
def ofLabel? (label : String) : Option Level := all.find? fun l => l.label = label

/-- Whether a log that is kept down to this level takes an event of level `l`. -/
def admits (least l : Level) : Bool := l.rank ≤ least.rank

end Level

/-- Named details in the order of their names. -/
abbrev Context := List (String × String)

/-- A context with one more detail, in place of an earlier one of the same
name. -/
def Context.insert (key value : String) : Context → Context
  | [] => [(key, value)]
  | (k, v) :: rest =>
      if key = k then (key, value) :: rest
      else if key < k then (key, value) :: (k, v) :: rest
      else (k, v) :: Context.insert key value rest

/-- Something that happened. -/
structure Event where
  level : Level
  code : Code
  message : String
  span? : Option Span := none
  context : Context := []
deriving DecidableEq, Repr

namespace Event

variable [Limits]

/-- A message cut to the bytes that an event may hold. -/
def cutMessage (message : String) : String :=
  String.ofList (Text.takeBytes Limits.messageBytes message.toList)

/-- An event of a level. -/
def ofLevel (level : Level) (code : Code) (message : String) : Event :=
  { level, code, message := cutMessage message }

/-- A failure. -/
def error (code : Code) (message : String) : Event := ofLevel .error code message

/-- A success: a notice with a code of its own. -/
def success (code : Code) (message : String) : Event := ofLevel .info code message

/-- A warning. -/
def warning (message : String) : Event := ofLevel .warning .plainWarning message

/-- A notice. -/
def info (message : String) : Event := ofLevel .info .plainInfo message

/-- A debugging aid. -/
def debug (message : String) : Event := ofLevel .debug .plainDebug message

/-- The event with a place in a source. -/
def withSpan (e : Event) (span : Span) : Event := { e with span? := some span }

/-- The event with one more detail. -/
def withDetail (e : Event) (key value : String) : Event :=
  { e with context := e.context.insert key value }

/-- The event with more details, one after the other. -/
def withDetails (e : Event) (details : List (String × String)) : Event :=
  details.foldl (fun e d => e.withDetail d.1 d.2) e

/-- What to do about a failure; other events ask for nothing. -/
def action? (e : Event) : Option String :=
  if e.level = .error then some e.code.action else none

/-- The place of an event, as its text gives it. -/
def placeText (e : Event) : String :=
  match e.span? with
  | some span => " at " ++ span.start.toText
  | none => ""

/-- The details of an event, as its text gives them. -/
def contextText (e : Event) : String :=
  if e.context.isEmpty then ""
  else " (" ++ String.intercalate ", " (e.context.map fun d => d.1 ++ "=" ++ d.2) ++ ")"

/-- The event as people read it. -/
def toText (e : Event) : String :=
  "[" ++ e.level.name ++ "] " ++ e.code.text ++ " - " ++ e.message ++ e.placeText ++ e.contextText

end Event

end PhpTokens.Log
