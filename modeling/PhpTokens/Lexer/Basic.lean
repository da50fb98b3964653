import PhpTokens.Lexer.Scanner
import PhpTokens.Log.Logged
import PhpTokens.Settings.Preferences

/-!
# The lexer

A lexer cuts sources one after the other, under fixed preferences, and keeps
the metrics of the latest run. A run reports its beginning, and its success or
the place where it failed.
-/

namespace PhpTokens

/-- A lexer between two runs. -/
structure Lexer where
  preferences : Settings.LexicalPreferences := {}
  metrics : Lexer.Metrics := {}
deriving DecidableEq, Repr

namespace Lexer

open Log

variable [Limits]

/-- The report that a run begins. -/
def beginEvent (source : String) : Event :=
  (Event.debug "Starting lexical analysis").withDetails
    [("bytes", toString source.utf8ByteSize), ("max_tokens_allowed", toString Limits.tokens)]

/-- The report that a run failed. -/
def failureEvent (withPosition : Bool) (outcome : Outcome) (e : LexError) : Event :=
  let place := LexError.placeText outcome.position.line outcome.position.column
  let message :=
    if withPosition then "Lexical analysis failed at " ++ place else "Lexical analysis failed"
  ((Event.error e.code message).withSpan (.point outcome.position)).withDetails
    [("error", e.message), ("tokens_processed", toString outcome.lexemes.size)]

/-- The report of what a run read besides code. -/
def statisticsEvent (m : Metrics) : Event :=
  (Event.debug "Token statistics").withDetails
    [("whitespace", toString m.whitespace), ("bare", toString m.bare),
      ("doc_comments", toString m.docComments),
      ("max_string_length", toString m.longestString),
      ("max_comment_length", toString m.longestComment)]

/-- The report that a run succeeded. -/
def successEvent (outcome : Outcome) (m : Metrics) : Event :=
  (Event.success .lexingCompleted "Lexical analysis completed successfully").withDetails
    [("token_count", toString outcome.lexemes.size), ("significant", toString m.significant),
      ("keywords", toString m.keywords), ("identifiers", toString m.identifiers),
      ("operators", toString m.operators),
      ("comments", toString (m.comments + m.docComments))]

/-- The reports of a run. -/
def runEvents (preferences : Settings.LexicalPreferences) (source : String) (outcome : Outcome)
    (m : Metrics) : List Event :=
  beginEvent source ::
    match outcome.error? with
    | some e => [failureEvent preferences.positionInErrors outcome e]
    | none =>
        (if preferences.tokenStatistics then [statisticsEvent m] else []) ++
          [successEvent outcome m]

/-- Cut a source into lexemes: the lexer after the run, and the lexemes or the
reason why there are none. -/
def tokenize (lexer : Lexer) (source : String) :
    Lexer × Logged (Except LexError (Array Lexeme)) :=
  let outcome := scan source lexer.preferences.detailedMetrics
  let metrics :=
    match outcome.error? with
    | some (.invalidCharacter ..) => outcome.metrics.recordInvalid
    | _ => outcome.metrics
  let result :=
    match outcome.error? with
    | some e => .error e
    | none => .ok outcome.lexemes
  ({ lexer with metrics }, ⟨result, runEvents lexer.preferences source outcome metrics⟩)

end Lexer

/-- Cut a source into lexemes under given preferences. -/
def tokenize [Limits] (source : String) (preferences : Settings.LexicalPreferences := {}) :
    Log.Logged (Except LexError (Array Lexeme)) :=
  (Lexer.tokenize { preferences } source).2

end PhpTokens
