import PhpTokens.Log.Event
import PhpTokens.Settings.Format
import PhpTokens.Toml.Document

/-!
# Preferences from TOML

Preferences are read from the text of a TOML document, or from a file that holds
one. In such a document a section may also be an array, and what it has too many
is passed over, or a date or time, which gives no preferences at all. A level may
also be a table whose only key names it. How a text is parsed into a document is
left open: `Toml.parse?` is one way.
-/

namespace PhpTokens

/-- A way to parse the text of a document. -/
abbrev Toml.Parser := String → Option Toml.Entries

namespace Settings

/-- Whether a value says nothing beyond its presence. -/
def isVoid : Toml.Value → Bool
  | .array [] => true
  | .table _ [] => true
  | _ => false

/-- The level that a key with nothing more to say names. -/
def levelOfKey? (name : String) (v : Toml.Value) : Option Log.Level :=
  if isVoid v then Log.Level.ofLabel? name else none

/-- Preferences as values of a TOML document. -/
def Format.toml : Format Toml.Value where
  bool?
    | .bool b => some b
    | _ => none
  level?
    | .text s => Log.Level.ofLabel? s
    | .table _ [(name, v)] => levelOfKey? name v
    | _ => none
  fields?
    | .table _ entries => some entries
    | .moment => some []
    | _ => none
  items?
    | .array items => some items
    | .tables items => some (items.map (.table .defined))
    | _ => none
  allowsExtraItems := true

/-- The preferences that the text of a document gives in an environment. -/
def Preferences.ofToml? (env : Environment) (source : String)
    (parse : Toml.Parser := Toml.parse?) : Option Preferences := do
  let entries ← parse source
  Format.toml.preferences? (.ofEnvironment env) (.table .defined entries)

/-- Why a file cannot be read as text. -/
inductive ReadError where
  | notFound | isDirectory | notText
deriving DecidableEq, Repr

/-- The reason as the system words it. -/
def ReadError.message : ReadError → String
  | .notFound => "No such file or directory (os error 2)"
  | .isDirectory => "Is a directory (os error 21)"
  | .notText => "stream did not contain valid UTF-8"

/-- Why preferences cannot be loaded. -/
inductive LoadError where
  | unreadable (path : String) (reason : ReadError)
  | invalid
deriving DecidableEq, Repr

/-- The error as people read it. What is wrong with a document is not said. -/
def LoadError.message : LoadError → String
  | .unreadable path reason =>
      "Failed to read configuration file '" ++ path ++ "': " ++ reason.message
  | .invalid => "Invalid configuration TOML"

/-- A folder with files by the paths that lead to them. -/
abbrev Folder := List (String × ByteArray)

namespace Folder

/-- Whether a path leads to a folder, where every folder holds only files. -/
def leadsToFolder (path : String) : Bool :=
  path ≠ "" && (path.splitOn "/").all fun part => part == "" || part == "." || part == ".."

/-- The text of a file. -/
def read (folder : Folder) (path : String) : Except ReadError String :=
  match folder.lookup path with
  | some bytes =>
      match String.fromUTF8? bytes with
      | some s => .ok s
      | none => .error .notText
  | none => .error (if leadsToFolder path then .isDirectory else .notFound)

end Folder

/-- The preferences that the text of a document gives, or why it gives none. -/
def Preferences.load (env : Environment) (source : String)
    (parse : Toml.Parser := Toml.parse?) : Except LoadError Preferences :=
  match ofToml? env source parse with
  | some p => .ok p
  | none => .error .invalid

/-- The preferences that a file gives, or why it gives none. -/
def Preferences.loadFile (env : Environment) (folder : Folder) (path : String)
    (parse : Toml.Parser := Toml.parse?) : Except LoadError Preferences :=
  match folder.read path with
  | .ok source => load env source parse
  | .error reason => .error (.unreadable path reason)

end Settings

end PhpTokens
