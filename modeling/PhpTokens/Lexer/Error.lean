import PhpTokens.Code
import PhpTokens.Limits

/-!
# Why a source cannot be cut into lexemes

Either some text is no lexeme, and the error says where it begins, or a lexeme
or the number of lexemes is above its limit, and the error says how large it
is.
-/

namespace PhpTokens

/-- Why a source cannot be cut into lexemes. -/
inductive LexError where
  | invalidCharacter (character : Char) (line column : UInt32)
  | unterminatedString (line column : UInt32)
  | unterminatedComment (line column : UInt32)
  | identifierTooLong (length : Nat)
  | stringTooLarge (size : Nat)
  | commentTooLong (length : Nat)
  | tooManyTokens (count : Nat)
deriving DecidableEq, Repr

namespace LexError

/-- A line and a column, as error messages give them. -/
def placeText (line column : UInt32) : String :=
  "line " ++ toString line.toNat ++ ", column " ++ toString column.toNat

/-- A size in bytes and the limit that it passes, as error messages give them. -/
def excessText (size limit : Nat) : String :=
  toString size ++ " bytes (max " ++ toString limit ++ ")"

/-- The error as people read it. -/
def message [Limits] : LexError → String
  | .invalidCharacter c line column =>
      "Invalid character: '" ++ String.singleton c ++ "' at " ++ placeText line column
  | .unterminatedString line column =>
      "Unterminated string literal starting at " ++ placeText line column
  | .unterminatedComment line column =>
      "Unterminated comment starting at " ++ placeText line column
  | .identifierTooLong n => "Identifier too long: " ++ excessText n Limits.nameBytes
  | .stringTooLarge n => "String too large: " ++ excessText n Limits.stringBytes
  | .commentTooLong n => "Comment too long: " ++ excessText n Limits.commentBytes
  | .tooManyTokens n =>
      "Too many tokens: " ++ toString n ++ " (max " ++ toString Limits.tokens ++ ")"

/-- The code under which the error is reported. -/
def code : LexError → Code
  | .invalidCharacter .. => .invalidCharacter
  | .unterminatedString .. => .unterminatedString
  | .unterminatedComment .. => .unterminatedComment
  | .identifierTooLong _ => .identifierTooLong
  | .stringTooLarge _ => .stringTooLarge
  | .commentTooLong _ => .commentTooLong
  | .tooManyTokens _ => .tooManyTokens

end LexError

end PhpTokens
