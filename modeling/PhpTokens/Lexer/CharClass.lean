/-!
# Classes of characters

The classes are those of ASCII, with one exception: every character outside
ASCII may stand in a name, also in first place.
-/

namespace PhpTokens.Lexer

/-- Blanks: space, tab, line feed and carriage return. -/
def isBlank (c : Char) : Bool := c == ' ' || c == '\t' || c == '\n' || c == '\r'

/-- Blanks that may stand before a closing label: space and tab. -/
def isIndent (c : Char) : Bool := c == ' ' || c == '\t'

/-- Characters that may begin a name. -/
def isNameStart (c : Char) : Bool := c.isAlpha || c == '_' || 128 ≤ c.toNat

/-- Characters that may go on with a name. -/
def isNameChar (c : Char) : Bool := isNameStart c || c.isDigit

/-- The punctuation marks of ASCII. -/
def isPunctuation (c : Char) : Bool :=
  (33 ≤ c.toNat && c.toNat ≤ 47) || (58 ≤ c.toNat && c.toNat ≤ 64) ||
    (91 ≤ c.toNat && c.toNat ≤ 96) || (123 ≤ c.toNat && c.toNat ≤ 126)

/-- Digits to the base sixteen. -/
def isHexDigit (c : Char) : Bool :=
  c.isDigit || ('a' ≤ c && c ≤ 'f') || ('A' ≤ c && c ≤ 'F')

/-- Digits to the base eight. -/
def isOctalDigit (c : Char) : Bool := '0' ≤ c && c ≤ '7'

/-- Digits to the base two. -/
def isBinaryDigit (c : Char) : Bool := c == '0' || c == '1'

/-- Length of the run of characters of a class at the head of a text. -/
def runLength (p : Char → Bool) (cs : List Char) : Nat := (cs.takeWhile p).length

theorem runLength_pos {p : Char → Bool} {c : Char} {cs : List Char} (h : p c = true) :
    0 < runLength p (c :: cs) := by
  simp [runLength, h]

/-- Length of a line break at the head of a text: line feed, carriage return, or
the two together. -/
def lineBreakLength : List Char → Nat
  | '\r' :: '\n' :: _ => 2
  | '\r' :: _ => 1
  | '\n' :: _ => 1
  | _ => 0

end PhpTokens.Lexer
