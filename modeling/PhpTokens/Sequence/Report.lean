import PhpTokens.Sequence.Builder

/-!
# Sequences that report

Making a sequence, and choosing its trivia anew, is reported; so is making one
from a source. A search that fails inside the sequence is reported on demand.
-/

namespace PhpTokens.Sequence

open Log

variable [Limits]

/-- The report that a sequence has its significant tokens. -/
def constructedEvent (s : Sequence) : Event :=
  (Event.debug "Token sequence constructed").withDetails
    [("total_tokens", toString s.size), ("significant_tokens", toString s.significant.size),
      ("trivia_types", toString s.trivia.types.length)]

/-- The report that a sequence was made from a source. -/
def fromSourceEvent (source : String) (s : Sequence) : Event :=
  (Event.success .sequenceConstructed "Token sequence constructed from source").withDetails
    [("source_bytes", toString source.utf8ByteSize), ("tokens", toString s.size),
      ("significant_tokens", toString s.significant.size)]

/-- The report of a search that met no significant token. -/
def failedSearchEvent (s : Sequence) (direction : Direction) (index : Int) : Event :=
  (Event.debug "No significant token found").withDetails
    [("direction", direction.preposition), ("index", toString index), ("count", toString s.size)]

/-- A sequence with the report that it was made. -/
def reported (s : Sequence) : Logged Sequence := ⟨s, [s.constructedEvent]⟩

/-- The sequence of a source, read by any lexer. -/
def ofSourceWith {ε : Type} (source : String) (run : Logged (Except ε (Array Lexeme))) :
    Logged (Except ε Sequence) := do
  match ← run with
  | .error e => return .error e
  | .ok lexemes =>
      let s ← (ofLexemes lexemes).reported
      Logged.report (s.fromSourceEvent source)
      return .ok s

/-- The sequence of a source. -/
def ofSource (source : String) (preferences : Settings.LexicalPreferences := {}) :
    Logged (Except LexError Sequence) :=
  ofSourceWith source (tokenize source preferences)

/-- The events of a search with a known result: its failure inside the sequence,
if failures are to be reported. -/
def searchEvents (s : Sequence) (reportFailures : Bool) (result : Except SearchError Token) :
    List Event :=
  match result with
  | .error (.noSignificantToken direction index) =>
      if reportFailures then [s.failedSearchEvent direction index] else []
  | _ => []

/-- A search that reports its failure inside the sequence on demand. -/
def searchReporting (s : Sequence) (reportFailures : Bool) (direction : Direction) (index : Int) :
    Logged (Except SearchError Token) :=
  let result := s.significantIn direction index
  ⟨result, s.searchEvents reportFailures result⟩

end PhpTokens.Sequence
