import PhpTokens.Lexer.CharClass
import PhpTokens.Token

/-!
# Numbers

An underscore may stand between two digits. An integer has decimal digits, or
digits to the base that `0x`, `0b` or `0o` announces. A point or an exponent
makes a number a float; the point may stand first if a digit follows it, and
last.
-/

namespace PhpTokens.Lexer

/-- Length of a run of digits, with `n` characters of it already passed. -/
def digitsFrom (isDigit : Char → Bool) (n : Nat) : List Char → Nat
  | [] => n
  | c :: cs =>
      if isDigit c ∨ (c = '_' ∧ 0 < n ∧ cs.head?.any isDigit) then digitsFrom isDigit (n + 1) cs
      else n

theorem le_digitsFrom (isDigit : Char → Bool) (n : Nat) (cs : List Char) :
    n ≤ digitsFrom isDigit n cs := by
  fun_induction digitsFrom isDigit n cs <;> omega

/-- Length of the run of digits at the head of a text. -/
def digitsLength (isDigit : Char → Bool) (cs : List Char) : Nat :=
  digitsFrom isDigit 0 cs

theorem digitsLength_pos {isDigit : Char → Bool} {c : Char} {cs : List Char}
    (h : isDigit c = true) : 0 < digitsLength isDigit (c :: cs) := by
  rw [digitsLength, digitsFrom, if_pos (.inl h)]
  exact le_digitsFrom isDigit 1 cs

/-- The digits of the base that a letter after a leading zero announces. -/
def baseDigits? (c : Char) : Option (Char → Bool) :=
  if c = 'x' ∨ c = 'X' then some isHexDigit
  else if c = 'b' ∨ c = 'B' then some isBinaryDigit
  else if c = 'o' ∨ c = 'O' then some isOctalDigit
  else none

/-- Length of the integer with an announced base at the head of a text. -/
def basedLength? : List Char → Option Nat
  | '0' :: c :: cs => do
      let isDigit ← baseDigits? c
      let n := digitsLength isDigit cs
      if 0 < n then some (2 + n) else none
  | _ => none

/-- Length of the fraction at the head of a text, point included. It may lack
digits only if digits stand before it. -/
def fractionLength (afterDigits : Bool) : List Char → Nat
  | '.' :: cs =>
      let n := digitsLength Char.isDigit cs
      if afterDigits || 0 < n then 1 + n else 0
  | _ => 0

/-- Length of the digits of an exponent, with their sign. -/
def signedLength : List Char → Nat
  | '+' :: cs | '-' :: cs =>
      let n := digitsLength Char.isDigit cs
      if 0 < n then 1 + n else 0
  | cs => digitsLength Char.isDigit cs

/-- Length of the exponent at the head of a text. -/
def exponentLength : List Char → Nat
  | 'e' :: cs | 'E' :: cs =>
      let n := signedLength cs
      if 0 < n then 1 + n else 0
  | _ => 0

/-- Type and length of the decimal number at the head of a text. -/
def decimalNumber (cs : List Char) : TokenType × Nat :=
  let whole := digitsLength Char.isDigit cs
  let fraction := fractionLength (0 < whole) (cs.drop whole)
  let exponent := exponentLength (cs.drop (whole + fraction))
  let type := if fraction = 0 ∧ exponent = 0 then TokenType.integerLiteral else .floatLiteral
  (type, whole + fraction + exponent)

/-- Type and length of the number at the head of a text that begins with a
digit, or with a point and a digit. -/
def number (cs : List Char) : TokenType × Nat :=
  match basedLength? cs with
  | some n => (.integerLiteral, n)
  | none => decimalNumber cs

theorem basedLength?_pos {cs : List Char} {n : Nat} (h : basedLength? cs = some n) : 0 < n := by
  unfold basedLength? at h
  split at h
  · simp only [Option.bind_eq_bind, Option.bind_eq_some_iff] at h
    obtain ⟨_, _, h⟩ := h
    split at h
    · simp at h; omega
    · simp at h
  · simp at h

theorem fractionLength_pos {afterDigits : Bool} {d : Char} {cs : List Char}
    (h : d.isDigit = true) : 0 < fractionLength afterDigits ('.' :: d :: cs) := by
  have hd : 0 < digitsLength Char.isDigit (d :: cs) := digitsLength_pos h
  have hor : (afterDigits || decide (0 < digitsLength Char.isDigit (d :: cs))) = true := by
    rw [decide_eq_true hd, Bool.or_true]
  rw [fractionLength, if_pos hor]
  omega

theorem decimalNumber_length_pos {c : Char} {cs : List Char}
    (h : c.isDigit = true ∨ (c = '.' ∧ cs.head?.any Char.isDigit = true)) :
    0 < (decimalNumber (c :: cs)).2 := by
  unfold decimalNumber
  rcases h with h | ⟨rfl, h⟩
  · have : 0 < digitsLength Char.isDigit (c :: cs) := digitsLength_pos h
    simp only []
    omega
  · match cs with
    | [] => simp at h
    | d :: cs =>
        have hz : digitsLength Char.isDigit ('.' :: d :: cs) = 0 := by
          simp [digitsLength, digitsFrom]
        have hd : d.isDigit = true := by simpa using h
        have hf : 0 < fractionLength (decide (0 < 0)) ('.' :: d :: cs) := fractionLength_pos hd
        simp only [hz, List.drop_zero]
        omega

theorem number_length_pos {c : Char} {cs : List Char}
    (h : c.isDigit = true ∨ (c = '.' ∧ cs.head?.any Char.isDigit = true)) :
    0 < (number (c :: cs)).2 := by
  unfold number
  split
  · next hn => exact basedLength?_pos hn
  · exact decimalNumber_length_pos h

end PhpTokens.Lexer
