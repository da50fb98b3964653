import PhpTokens.Record.Place
import PhpTokens.Settings.Format

/-!
# Records of preferences

Preferences are read leniently: whatever a record does not give keeps the
default that the environment gives it.
-/

namespace PhpTokens.Settings

/-- Preferences as plain data. -/
def Format.datum : Format Datum where
  bool?
    | .bool b => some b
    | _ => none
  level? := Codec.decode?
  fields?
    | .record fields => some fields
    | _ => none
  items?
    | .list items => some items
    | _ => none
  allowsExtraItems := false

namespace LexicalPreferences

/-- The plain data of lexical preferences. -/
def encode (p : LexicalPreferences) : Datum :=
  .record [("collect_detailed_metrics", .bool p.detailedMetrics),
    ("include_position_in_errors", .bool p.positionInErrors),
    ("log_token_statistics", .bool p.tokenStatistics)]

/-- The lexical preferences of plain data in an environment. -/
def decode? (env : Environment) (d : Datum) : Option LexicalPreferences :=
  Format.datum.lexical? (.ofEnvironment env) d

end LexicalPreferences

namespace LoggingPreferences

/-- The plain data of logging preferences. -/
def encode (p : LoggingPreferences) : Datum :=
  .record [("use_structured_logging", .bool p.structured),
    ("enable_console_logging", .bool p.console),
    ("min_log_level", Codec.encode p.leastLevel),
    ("log_failed_searches", .bool p.failedSearches)]

/-- The logging preferences of plain data in an environment. -/
def decode? (env : Environment) (d : Datum) : Option LoggingPreferences :=
  Format.datum.logging? (.ofEnvironment env) d

end LoggingPreferences

namespace Preferences

/-- The plain data of all preferences. -/
def encode (p : Preferences) : Datum :=
  .record [("lexical", p.lexical.encode), ("logging", p.logging.encode)]

/-- All preferences of plain data in an environment. -/
def decode? (env : Environment) (d : Datum) : Option Preferences :=
  Format.datum.preferences? (.ofEnvironment env) d

end Preferences

end PhpTokens.Settings
