/-!
# Diagnostic codes

Every event carries a code. The codes of failures are registered with what is
known about them: how grave the failure is, whether work can go on, and what to
do about it. A code that is not registered is of medium severity, recoverable,
and nothing more is known.
-/

namespace PhpTokens

/-- How grave a failure is. -/
inductive Severity where
  | critical | high | medium | low
deriving DecidableEq, Repr

namespace Severity

/-- The name of a severity. -/
def name : Severity → String
  | .critical => "Critical"
  | .high => "High"
  | .medium => "Medium"
  | .low => "Low"

/-- The gravest severity has rank zero. -/
def rank : Severity → Nat
  | .critical => 0
  | .high => 1
  | .medium => 2
  | .low => 3

end Severity

/-- The code of a failure or of a success. -/
structure Code where
  text : String
deriving DecidableEq, Repr

/-- What is known about the code of a failure. -/
structure CodeEntry where
  code : Code
  category : String
  severity : Severity
  recoverable : Bool
  halts : Bool
  description : String
  action : String
deriving DecidableEq, Repr

namespace Code

/-- A fault of the library itself. -/
def internalError : Code := ⟨"ERR001"⟩

/-- Something was set up a second time. -/
def initializationFailure : Code := ⟨"ERR002"⟩

/-- A character that begins no token. -/
def invalidCharacter : Code := ⟨"E020"⟩

/-- A string literal without end. -/
def unterminatedString : Code := ⟨"E021"⟩

/-- A block comment without end. -/
def unterminatedComment : Code := ⟨"E022"⟩

/-- A comment above its limit. -/
def commentTooLong : Code := ⟨"E023"⟩

/-- A string literal above its limit. -/
def stringTooLarge : Code := ⟨"E024"⟩

/-- A source with too many lexemes. -/
def tooManyTokens : Code := ⟨"E025"⟩

/-- A name above its limit. -/
def identifierTooLong : Code := ⟨"E026"⟩

/-- A query with an index outside the sequence. -/
def indexOutOfBounds : Code := ⟨"E040"⟩

/-- A search that met no significant token. -/
def noSignificantToken : Code := ⟨"E041"⟩

/-- The logger of the session was set up. -/
def loggingInitialized : Code := ⟨"I004"⟩

/-- A source was cut into lexemes. -/
def lexingCompleted : Code := ⟨"I020"⟩

/-- A sequence was made from a source. -/
def sequenceConstructed : Code := ⟨"I040"⟩

/-- A warning without a code of its own. -/
def plainWarning : Code := ⟨"W000"⟩

/-- A notice without a code of its own. -/
def plainInfo : Code := ⟨"I000"⟩

/-- A debugging aid without a code of its own. -/
def plainDebug : Code := ⟨"D000"⟩

/-- The registered codes. -/
def entries : List CodeEntry := [
  ⟨internalError, "System", .critical, false, true,
    "Critical internal system error",
    "File a bug report with the input that triggered it"⟩,
  ⟨initializationFailure, "System", .critical, false, true,
    "System initialization failure",
    "Check configuration and initialize logging only once"⟩,
  ⟨invalidCharacter, "Lexical", .high, false, true,
    "Character cannot start any token",
    "Remove or escape the character"⟩,
  ⟨unterminatedString, "Lexical", .high, false, true,
    "String literal is not terminated",
    "Add the closing quote"⟩,
  ⟨unterminatedComment, "Lexical", .high, false, true,
    "Block comment is not terminated",
    "Add the closing */"⟩,
  ⟨commentTooLong, "Lexical", .medium, false, true,
    "Comment exceeds the configured maximum length",
    "Shorten the comment or raise lexical.max_comment_length"⟩,
  ⟨stringTooLarge, "Lexical", .medium, false, true,
    "String literal exceeds the configured maximum size",
    "Shorten the literal or raise lexical.max_string_size"⟩,
  ⟨tooManyTokens, "Lexical", .high, false, true,
    "Source produces more tokens than allowed",
    "Split the source or raise lexical.max_token_count"⟩,
  ⟨identifierTooLong, "Lexical", .medium, false, true,
    "Identifier exceeds the configured maximum length",
    "Shorten the identifier or raise lexical.max_identifier_length"⟩,
  ⟨indexOutOfBounds, "Sequence", .low, true, false,
    "Index lies outside the bounds of the token sequence",
    "Check the index against the sequence count before access"⟩,
  ⟨noSignificantToken, "Sequence", .low, true, false,
    "Search reached a sequence boundary without a significant token",
    "Handle the boundary case in the caller"⟩]

/-- What is known about a code, if it is registered. -/
def entry? (c : Code) : Option CodeEntry := entries.find? fun e => e.code = c

/-- How grave the failure is. -/
def severity (c : Code) : Severity := (c.entry?.map CodeEntry.severity).getD .medium

/-- Whether work can go on after the failure. -/
def isRecoverable (c : Code) : Bool := (c.entry?.map CodeEntry.recoverable).getD true

/-- Whether work has to stop at the failure. -/
def halts (c : Code) : Bool := (c.entry?.map CodeEntry.halts).getD false

/-- What happened. -/
def description (c : Code) : String := (c.entry?.map CodeEntry.description).getD "Unknown error"

/-- What to do about it. -/
def action (c : Code) : String :=
  (c.entry?.map CodeEntry.action).getD "No specific action available"

/-- The part of the library that the code belongs to. -/
def category (c : Code) : String := (c.entry?.map CodeEntry.category).getD "Unknown"

end Code

end PhpTokens
