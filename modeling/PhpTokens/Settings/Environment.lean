import PhpTokens.Log.Event

/-!
# Settings from the environment

A variable of the environment holds bytes. It is heeded if they are UTF-8 and
spell a value of the setting, and has no effect otherwise. Booleans are spelled
exactly `true` and `false`; a level is given by name in any case, by `warn` for
a warning, or by its rank.
-/

namespace PhpTokens.Settings

/-- The variables of an environment with their bytes. -/
abbrev Environment := List (String × ByteArray)

namespace Environment

/-- The text of a variable, if it is set and is text. -/
def text? (env : Environment) (name : String) : Option String :=
  (env.lookup name).bind String.fromUTF8?

/-- The boolean that a text spells. -/
def parseBool? (s : String) : Option Bool :=
  if s = "true" then some true else if s = "false" then some false else none

/-- The level that a text spells. -/
def parseLevel? (s : String) : Option Log.Level :=
  let lower := String.ofList (s.toList.map Char.toLower)
  if lower = "error" ∨ lower = "0" then some .error
  else if lower = "warning" ∨ lower = "warn" ∨ lower = "1" then some .warning
  else if lower = "info" ∨ lower = "2" then some .info
  else if lower = "debug" ∨ lower = "3" then some .debug
  else none

/-- The boolean that a variable gives, or else `default`. -/
def bool (env : Environment) (name : String) (default : Bool) : Bool :=
  ((env.text? name).bind parseBool?).getD default

/-- The level that a variable gives, or else `default`. -/
def level (env : Environment) (name : String) (default : Log.Level) : Log.Level :=
  ((env.text? name).bind parseLevel?).getD default

end Environment

end PhpTokens.Settings
