/-!
# Limits of a build

Sizes that no run may pass. They belong to the profile that the library is built
with, and a build that breaks one of the rules below is refused. The profile can
say where it was read from. Everything that follows holds for every profile; the
one for development stands in where none is named.
-/

namespace PhpTokens

/-- The limits of a build, and the profile that they are read from. -/
class Limits where
  /-- Name of the profile. -/
  profile : String
  /-- Folder of the profiles. -/
  folder : String
  /-- Most lexemes that one source may have. -/
  tokens : Nat
  /-- Most bytes of a comment. -/
  commentBytes : Nat
  /-- Most bytes of a string literal, quotes or labels included. -/
  stringBytes : Nat
  /-- Most bytes of a name. -/
  nameBytes : Nat
  /-- Most events that a log buffer holds. -/
  bufferedEvents : Nat
  /-- Most bytes of the message of an event. -/
  messageBytes : Nat
  tokens_le : tokens ≤ 10000000
  tokens_le_of_production : profile = "production" → tokens ≤ 5000000
  stringBytes_le : stringBytes ≤ 100000000
  bufferedEvents_pos : 0 < bufferedEvents
  /-- There is room for a tag and a lexeme behind it. -/
  two_le_tokens : 2 ≤ tokens

namespace Limits

/-- Where the limits come from, as people write it. -/
def origin [Limits] : String := "Generated from " ++ folder ++ "/" ++ profile ++ ".toml"

/-- The profile for development. It is the one that counts where no other is named. -/
instance (priority := low) development : Limits where
  profile := "development"
  folder := "config"
  tokens := 1000000
  commentBytes := 1048576
  stringBytes := 1048576
  nameBytes := 1024
  bufferedEvents := 10000
  messageBytes := 4096
  tokens_le := by decide
  tokens_le_of_production := by decide
  stringBytes_le := by decide
  bufferedEvents_pos := by decide
  two_le_tokens := by decide

/-- The profile for production. -/
abbrev production : Limits where
  profile := "production"
  folder := "config"
  tokens := 2000000
  commentBytes := 1048576
  stringBytes := 4194304
  nameBytes := 1024
  bufferedEvents := 1000
  messageBytes := 2048
  tokens_le := by decide
  tokens_le_of_production := by decide
  stringBytes_le := by decide
  bufferedEvents_pos := by decide
  two_le_tokens := by decide

theorem tokens_pos [Limits] : 0 < tokens := Nat.lt_of_succ_lt two_le_tokens

end Limits

end PhpTokens
