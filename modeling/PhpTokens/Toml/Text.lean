/-!
# Blanks, line breaks and texts of TOML

A reader takes something from the head of a text and gives it with the rest, or
nothing. Control characters other than the tab stand nowhere in a document. A
text is written between one or three quotes; between apostrophes nothing is
escaped.
-/

namespace PhpTokens.Toml

/-- What takes a value from the head of a text. -/
abbrev Reader (α : Type) := List Char → Option (α × List Char)

/-- Blanks within a line. -/
def isBlank (c : Char) : Bool := c == ' ' || c == '\t'

/-- Characters that may stand in a comment or a text. -/
def isVisible (c : Char) : Bool := c == '\t' || (32 ≤ c.toNat && c.toNat ≠ 127)

/-- The rest of a text after its leading blanks. -/
def skipBlanks (cs : List Char) : List Char := cs.dropWhile isBlank

/-- The rest after a line break. -/
def lineBreak? : List Char → Option (List Char)
  | '\n' :: cs => some cs
  | '\r' :: '\n' :: cs => some cs
  | _ => none

/-- The rest after a comment, if there is one. -/
def skipComment : List Char → List Char
  | '#' :: cs => cs.dropWhile isVisible
  | cs => cs

/-- The rest after what may follow on a line: blanks, a comment, and the line
break or the end of the text. -/
def lineEnd? (cs : List Char) : Option (List Char) :=
  match skipComment (skipBlanks cs) with
  | [] => some []
  | rest => lineBreak? rest

/-- The rest after blanks and line breaks. -/
def skipLayout : List Char → List Char
  | '\r' :: '\n' :: cs => skipLayout cs
  | c :: cs => if isBlank c ∨ c = '\n' then skipLayout cs else c :: cs
  | [] => []

/-- The rest after blanks, line breaks and comments, of which at most `fuel` are
passed. -/
def skipFiller : Nat → List Char → List Char
  | 0, cs => cs
  | fuel + 1, cs =>
      match skipLayout cs with
      | '#' :: rest => skipFiller fuel (skipComment ('#' :: rest))
      | rest => rest

/-- The value of a digit to the base sixteen. -/
def hexValue? (c : Char) : Option Nat :=
  if '0' ≤ c ∧ c ≤ '9' then some (c.toNat - '0'.toNat)
  else if 'a' ≤ c ∧ c ≤ 'f' then some (c.toNat - 'a'.toNat + 10)
  else if 'A' ≤ c ∧ c ≤ 'F' then some (c.toNat - 'A'.toNat + 10)
  else none

/-- The character whose number has exactly `n` digits to the base sixteen. -/
def numberedChar? (n : Nat) : Reader Char := fun cs => do
  let digits := cs.take n
  guard (digits.length = n)
  let values ← digits.mapM hexValue?
  let code := values.foldl (fun a d => 16 * a + d) 0
  guard (code.isValidChar)
  return (Char.ofNat code, cs.drop n)

/-- The character that an escape stands for, after its backslash. -/
def escape? : Reader Char
  | 'b' :: cs => some ('\x08', cs)
  | 't' :: cs => some ('\t', cs)
  | 'n' :: cs => some ('\n', cs)
  | 'f' :: cs => some ('\x0c', cs)
  | 'r' :: cs => some ('\r', cs)
  | '"' :: cs => some ('"', cs)
  | '\\' :: cs => some ('\\', cs)
  | 'u' :: cs => numberedChar? 4 cs
  | 'U' :: cs => numberedChar? 8 cs
  | _ => none

/-- The rest after a backslash that hides the end of a line: everything up to
the next visible character is passed over. -/
def hiddenLineEnd? (cs : List Char) : Option (List Char) :=
  (lineBreak? (skipBlanks cs)).map skipLayout

/-- The characters up to the quote that ends a text on one line, after those in
`front`, which are reversed. -/
def basicFrom? (front : List Char) : Nat → Reader String
  | 0, _ => none
  | _ + 1, [] => none
  | fuel + 1, c :: cs =>
      if c = '"' then some (String.ofList front.reverse, cs)
      else if c = '\\' then do
        let (d, rest) ← escape? cs
        basicFrom? (d :: front) fuel rest
      else if isVisible c then basicFrom? (c :: front) fuel cs
      else none

/-- The characters up to the apostrophe that ends a text on one line. -/
def literal? : Reader String := fun cs =>
  let inside := cs.takeWhile fun c => c ≠ '\'' ∧ isVisible c
  match cs.drop inside.length with
  | '\'' :: rest => some (String.ofList inside, rest)
  | _ => none

/-- Number of marks at the head of a text, up to five. -/
def marks (mark : Char) (cs : List Char) : Nat := ((cs.take 5).takeWhile (· = mark)).length

/-- The characters up to the three marks that end a text of several lines, after
those in `front`, which are reversed. One or two marks may stand inside and also
right before the end. Only between quotes does a backslash escape. -/
def multilineFrom? (mark : Char) (front : List Char) : Nat → Reader String
  | 0, _ => none
  | _ + 1, [] => none
  | fuel + 1, c :: cs =>
      if c = mark then
        let n := marks mark (c :: cs)
        if 3 ≤ n then
          some (String.ofList (List.replicate (n - 3) mark ++ front).reverse, (c :: cs).drop n)
        else multilineFrom? mark (c :: front) fuel cs
      else if c = '\\' ∧ mark = '"' then
        match hiddenLineEnd? cs with
        | some rest => multilineFrom? mark front fuel rest
        | none => do
            let (d, rest) ← escape? cs
            multilineFrom? mark (d :: front) fuel rest
      else if isVisible c then multilineFrom? mark (c :: front) fuel cs
      else do
        let rest ← lineBreak? (c :: cs)
        multilineFrom? mark ('\n' :: front) fuel rest

/-- The rest after a line break that may follow the opening of a text of several
lines. -/
def skipFirstBreak (cs : List Char) : List Char := (lineBreak? cs).getD cs

/-- A text of fewer than `fuel` characters, on one line or several. -/
def text? (fuel : Nat) : Reader String
  | '"' :: '"' :: '"' :: cs => multilineFrom? '"' [] fuel (skipFirstBreak cs)
  | '\'' :: '\'' :: '\'' :: cs => multilineFrom? '\'' [] fuel (skipFirstBreak cs)
  | '"' :: cs => basicFrom? [] fuel cs
  | '\'' :: cs => literal? cs
  | _ => none

/-- Characters of a key without quotes. -/
def isKeyChar (c : Char) : Bool := c.isAlphanum || c == '_' || c == '-'

/-- One key of fewer than `fuel` characters, with or without quotes. -/
def simpleKey? (fuel : Nat) : Reader String
  | '"' :: cs => basicFrom? [] fuel cs
  | '\'' :: cs => literal? cs
  | cs =>
      let name := cs.takeWhile isKeyChar
      if name.isEmpty then none else some (String.ofList name, cs.drop name.length)

/-- Most parts that a dotted key may have. -/
def maxKeyParts : Nat := 79

/-- A dotted key of at most the given number of parts: those before the last one,
and the last. Blanks may stand around the parts. -/
def key? (fuel : Nat) : Nat → List String → Reader (List String × String)
  | 0, _ => fun _ => none
  | parts + 1, path => fun cs => do
      let (part, rest) ← simpleKey? fuel (skipBlanks cs)
      match skipBlanks rest with
      | '.' :: rest => key? fuel parts (path ++ [part]) rest
      | rest => return ((path, part), rest)

/-- A dotted key of as many parts as are allowed. -/
def dottedKey? (fuel : Nat) : Reader (List String × String) := key? fuel maxKeyParts []

end PhpTokens.Toml
