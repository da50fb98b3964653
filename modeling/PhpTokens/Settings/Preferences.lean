import PhpTokens.Settings.Environment

/-!
# Preferences

What a run reports and how it is logged can be chosen. Each choice has a
built-in default, which a variable of the environment may replace.
-/

namespace PhpTokens.Settings

/-- What cutting a source measures and reports. -/
structure LexicalPreferences where
  detailedMetrics : Bool := true
  positionInErrors : Bool := true
  tokenStatistics : Bool := false
deriving DecidableEq, Repr

/-- How events are logged. -/
structure LoggingPreferences where
  structured : Bool := false
  console : Bool := false
  leastLevel : Log.Level := .info
  failedSearches : Bool := false
deriving DecidableEq, Repr

/-- All preferences. -/
structure Preferences where
  lexical : LexicalPreferences := {}
  logging : LoggingPreferences := {}
deriving DecidableEq, Repr

/-- The lexical preferences that an environment gives. -/
def LexicalPreferences.ofEnvironment (env : Environment) : LexicalPreferences where
  detailedMetrics := env.bool "TOKSEQ_LEXICAL_DETAILED_METRICS" true
  positionInErrors := env.bool "TOKSEQ_LEXICAL_INCLUDE_POSITIONS" true
  tokenStatistics := env.bool "TOKSEQ_LEXICAL_LOG_TOKEN_STATS" false

/-- The logging preferences that an environment gives. -/
def LoggingPreferences.ofEnvironment (env : Environment) : LoggingPreferences where
  structured := env.bool "TOKSEQ_LOGGING_USE_STRUCTURED" false
  console := env.bool "TOKSEQ_LOGGING_ENABLE_CONSOLE" false
  leastLevel := env.level "TOKSEQ_LOGGING_MIN_LEVEL" .info
  failedSearches := env.bool "TOKSEQ_LOGGING_LOG_FAILED_SEARCHES" false

/-- The preferences that an environment gives. -/
def Preferences.ofEnvironment (env : Environment) : Preferences where
  lexical := .ofEnvironment env
  logging := .ofEnvironment env

end PhpTokens.Settings
