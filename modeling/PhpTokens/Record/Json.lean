import PhpTokens.Record.Datum

/-!
# Plain data as one line of JSON

The line has no blanks. Quotes, backslashes and control characters in a text are
escaped, so that the line has no line break; everything else stands for itself.
A scalar that is not a whole number has no written form here and becomes null.
-/

namespace PhpTokens.Json

/-- How one character is written inside a text. -/
def escapeChar (c : Char) : List Char :=
  match c with
  | '"' => ['\\', '"']
  | '\\' => ['\\', '\\']
  | '\x08' => ['\\', 'b']
  | '\x0c' => ['\\', 'f']
  | '\n' => ['\\', 'n']
  | '\r' => ['\\', 'r']
  | '\t' => ['\\', 't']
  | c =>
      if c.toNat < 32 then
        ['\\', 'u', '0', '0', Nat.digitChar (c.toNat / 16), Nat.digitChar (c.toNat % 16)]
      else [c]

/-- A text between double quotes. -/
def writeText (s : String) : List Char :=
  '"' :: s.toList.flatMap escapeChar ++ ['"']

mutual

/-- The characters of a datum. -/
def write : Datum → List Char
  | .null | .scalar => "null".toList
  | .bool true => "true".toList
  | .bool false => "false".toList
  | .int n => (toString n).toList
  | .text s => writeText s
  | .list items => '[' :: writeItems items ++ [']']
  | .record fields => '\x7b' :: writeFields fields ++ ['\x7d']

/-- The items of a list, with commas between them. -/
def writeItems : List Datum → List Char
  | [] => []
  | [d] => write d
  | d :: e :: items => write d ++ ',' :: writeItems (e :: items)

/-- The fields of a record, with commas between them. -/
def writeFields : List (String × Datum) → List Char
  | [] => []
  | [(k, d)] => writeText k ++ ':' :: write d
  | (k, d) :: f :: fields => writeText k ++ ':' :: write d ++ ',' :: writeFields (f :: fields)

end

/-- The line of a datum. -/
def line (d : Datum) : String := String.ofList (write d)

end PhpTokens.Json
