import PhpTokens.Settings.Preferences

/-!
# Reading preferences from a format

Preferences can be written in more than one format of data. A format says how a
value of it is seen: as a boolean, a level, a record or a list. Whatever the
format, a preference that is not given keeps its default, one that is not known
is passed over, and a list gives the preferences in their order. Formats differ
in whether a list may go on after the last preference.
-/

namespace PhpTokens.Settings

/-- How the values of a format are seen. -/
structure Format (δ : Type) where
  bool? : δ → Option Bool
  level? : δ → Option Log.Level
  fields? : δ → Option (List (String × δ))
  items? : δ → Option (List δ)
  allowsExtraItems : Bool

namespace Format

/-- A field, or its default if the record lacks it. -/
def fieldOr {α δ : Type} (read : δ → Option α) (fields : List (String × δ)) (name : String)
    (default : α) : Option α :=
  match fields.lookup name with
  | some d => read d
  | none => some default

/-- An item, or its default if the list is too short. -/
def itemOr {α δ : Type} (read : δ → Option α) (items : List δ) (i : Nat) (default : α) : Option α :=
  match items[i]? with
  | some d => read d
  | none => some default

/-- The items of a list that stands for a record of `n` fields. -/
def itemsFor? {δ : Type} (f : Format δ) (n : Nat) (d : δ) : Option (List δ) := do
  let items ← f.items? d
  if f.allowsExtraItems ∨ items.length ≤ n then some items else none

variable {δ : Type} (f : Format δ)

/-- The lexical preferences that a value gives. -/
def lexical? (defaults : LexicalPreferences) (d : δ) : Option LexicalPreferences :=
  match f.fields? d with
  | some fields => do
      let detailedMetrics ←
        fieldOr f.bool? fields "collect_detailed_metrics" defaults.detailedMetrics
      let positionInErrors ←
        fieldOr f.bool? fields "include_position_in_errors" defaults.positionInErrors
      let tokenStatistics ← fieldOr f.bool? fields "log_token_statistics" defaults.tokenStatistics
      return { detailedMetrics, positionInErrors, tokenStatistics }
  | none => do
      let items ← f.itemsFor? 3 d
      let detailedMetrics ← itemOr f.bool? items 0 defaults.detailedMetrics
      let positionInErrors ← itemOr f.bool? items 1 defaults.positionInErrors
      let tokenStatistics ← itemOr f.bool? items 2 defaults.tokenStatistics
      return { detailedMetrics, positionInErrors, tokenStatistics }

/-- The logging preferences that a value gives. -/
def logging? (defaults : LoggingPreferences) (d : δ) : Option LoggingPreferences :=
  match f.fields? d with
  | some fields => do
      let structured ← fieldOr f.bool? fields "use_structured_logging" defaults.structured
      let console ← fieldOr f.bool? fields "enable_console_logging" defaults.console
      let leastLevel ← fieldOr f.level? fields "min_log_level" defaults.leastLevel
      let failedSearches ← fieldOr f.bool? fields "log_failed_searches" defaults.failedSearches
      return { structured, console, leastLevel, failedSearches }
  | none => do
      let items ← f.itemsFor? 4 d
      let structured ← itemOr f.bool? items 0 defaults.structured
      let console ← itemOr f.bool? items 1 defaults.console
      let leastLevel ← itemOr f.level? items 2 defaults.leastLevel
      let failedSearches ← itemOr f.bool? items 3 defaults.failedSearches
      return { structured, console, leastLevel, failedSearches }

/-- The preferences that a value gives. -/
def preferences? (defaults : Preferences) (d : δ) : Option Preferences :=
  match f.fields? d with
  | some fields => do
      let lexical ← fieldOr (f.lexical? defaults.lexical) fields "lexical" defaults.lexical
      let logging ← fieldOr (f.logging? defaults.logging) fields "logging" defaults.logging
      return { lexical, logging }
  | none => do
      let items ← f.itemsFor? 2 d
      let lexical ← itemOr (f.lexical? defaults.lexical) items 0 defaults.lexical
      let logging ← itemOr (f.logging? defaults.logging) items 1 defaults.logging
      return { lexical, logging }

end Format

end PhpTokens.Settings
