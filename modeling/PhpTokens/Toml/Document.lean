import PhpTokens.Toml.Number
import PhpTokens.Toml.Value

/-!
# TOML documents

A document is a list of assignments under headers. Arrays and inline tables may
be nested, to a depth that is bounded. A header or a key that would define
something twice makes the whole document invalid.
-/

namespace PhpTokens.Toml

/-- Most arrays and inline tables that may be nested in each other. -/
def maxDepth : Nat := 79

/-- A value that is neither an array nor an inline table, of fewer than `fuel`
characters. -/
def plain? (fuel : Nat) : Reader Value
  | 't' :: 'r' :: 'u' :: 'e' :: cs => some (.bool true, cs)
  | 'f' :: 'a' :: 'l' :: 's' :: 'e' :: cs => some (.bool false, cs)
  | cs =>
      match text? fuel cs with
      | some (s, rest) => some (.text s, rest)
      | none =>
          match dateTime? cs with
          | some rest => some (.moment, rest)
          | none =>
              match real? cs with
              | some rest => some (.real, rest)
              | none => (integer? cs).map fun (n, rest) => (.int n, rest)

mutual

/-- A value in which arrays and inline tables are nested at most `depth` deep. As
long as `fuel` is above the length of the text it has no effect. -/
def value? : Nat → Nat → Reader Value
  | 0, _, _ => none
  | fuel + 1, depth, '[' :: cs => do
      guard (0 < depth)
      items? fuel (depth - 1) [] cs
  | fuel + 1, depth, '\x7b' :: cs => do
      guard (0 < depth)
      match skipBlanks cs with
      | '\x7d' :: rest => return (.table .inlined [], rest)
      | _ => assignments? fuel (depth - 1) [] cs
  | fuel + 1, _, cs => plain? fuel cs

/-- The items of an array up to its end, after those in `front`, which are
reversed. A comma may follow the last one. -/
def items? : Nat → Nat → List Value → Reader Value
  | 0, _, _, _ => none
  | fuel + 1, depth, front, cs =>
      match skipFiller fuel cs with
      | ']' :: rest => some (.array front.reverse, rest)
      | rest => do
          let (v, rest) ← value? fuel depth rest
          match skipFiller fuel rest with
          | ',' :: rest => items? fuel depth (v :: front) rest
          | ']' :: rest => return (.array (v :: front).reverse, rest)
          | _ => none

/-- The assignments of an inline table up to its end, after those in `front`,
which are reversed. -/
def assignments? : Nat → Nat → List Assignment → Reader Value
  | 0, _, _, _ => none
  | fuel + 1, depth, front, cs => do
      let ((path, key), rest) ← dottedKey? fuel cs
      let rest ← expect? '=' rest
      let (v, rest) ← value? fuel depth (skipBlanks rest)
      let front := ⟨path, key, v⟩ :: front
      match skipBlanks rest with
      | ',' :: rest => assignments? fuel depth front rest
      | '\x7d' :: rest => do
          let entries ← addAll .inlineDotted .inlined [] front.reverse
          return (.table .inlined entries, rest)
      | _ => none

end

/-- An assignment on a line of its own. -/
def assignment? (fuel : Nat) : Reader Assignment := fun cs => do
  let ((path, key), rest) ← dottedKey? fuel cs
  let rest ← expect? '=' rest
  let (v, rest) ← value? fuel maxDepth (skipBlanks rest)
  let rest ← lineEnd? rest
  return (⟨path, key, v⟩, rest)

/-- The assignments up to the next header or the end of a document, after those
in `front`, which are reversed. -/
def body? (fuel : Nat) : Nat → List Assignment → Reader (List Assignment)
  | 0, _, _ => none
  | lines + 1, front, cs =>
      match skipBlanks cs with
      | [] => some (front.reverse, [])
      | '[' :: rest => some (front.reverse, '[' :: rest)
      | '#' :: rest => do
          let rest ← lineEnd? ('#' :: rest)
          body? fuel lines front rest
      | rest =>
          match lineBreak? rest with
          | some rest => body? fuel lines front rest
          | none => do
              let (a, rest) ← assignment? fuel rest
              body? fuel lines (a :: front) rest

/-- A section with its header. -/
def section? (fuel : Nat) : Reader Section
  | '[' :: '[' :: cs => do
      let ((path, key), rest) ← dottedKey? fuel cs
      let rest ← (expect? ']' rest).bind (expect? ']')
      let rest ← lineEnd? rest
      let (body, rest) ← body? fuel fuel [] rest
      return (.tables path key body, rest)
  | '[' :: cs => do
      let ((path, key), rest) ← dottedKey? fuel cs
      let rest ← expect? ']' rest
      let rest ← lineEnd? rest
      let (body, rest) ← body? fuel fuel [] rest
      return (.table path key body, rest)
  | _ => none

/-- The entries of a document with its remaining sections added. -/
def addSections? (fuel : Nat) : Nat → Entries → List Char → Option Entries
  | _, entries, [] => some entries
  | 0, _, _ :: _ => none
  | n + 1, entries, cs => do
      let (s, rest) ← section? fuel cs
      let entries ← s.add entries
      addSections? fuel n entries rest

/-- The text of a document without the mark that may begin it. -/
def skipMark : List Char → List Char
  | '\ufeff' :: cs => cs
  | cs => cs

/-- The entries of the document that a text is. -/
def parse? (source : String) : Option Entries := do
  let cs := skipMark source.toList
  let fuel := 2 * cs.length + 2
  let (body, rest) ← body? fuel fuel [] cs
  let entries ← (Section.root body).add []
  addSections? fuel fuel entries rest

end PhpTokens.Toml
