import PhpTokens.Lexer.CharClass
import PhpTokens.Text.Offset
import PhpTokens.Token

/-!
# Tags

Code begins at `<?=`, or at `<?php` in any case if a blank or the end of the
text follows; that tag includes the one blank, or the two characters of a line
break. Everything before the first such place is template text. Code ends at a
close tag, which includes one line break.
-/

namespace PhpTokens.Lexer

/-- The open tag at the head of a text, with its length. -/
def openTag? : List Char → Option (TokenType × Nat)
  | '<' :: '?' :: '=' :: _ => some (.openTagWithEcho, 3)
  | '<' :: '?' :: a :: b :: c :: after =>
      if a.toLower = 'p' ∧ b.toLower = 'h' ∧ c.toLower = 'p' then
        match after with
        | [] => some (.openTag, 5)
        | '\r' :: '\n' :: _ => some (.openTag, 7)
        | d :: _ => if isBlank d then some (.openTag, 6) else none
      else none
  | _ => none

/-- Length of the template text at the head of a text: up to the first open tag,
or all of it. -/
def templateLength (cs : List Char) : Nat :=
  (Text.offsetOf? (fun rest => (openTag? rest).isSome) cs).getD cs.length

theorem openTag?_length_pos {cs : List Char} {type : TokenType} {n : Nat}
    (h : openTag? cs = some (type, n)) : 0 < n := by
  unfold openTag? at h
  repeat' split at h
  all_goals grind

theorem templateLength_pos {c : Char} {cs : List Char} (h : openTag? (c :: cs) = none) :
    0 < templateLength (c :: cs) := by
  unfold templateLength
  cases hk : Text.offsetOf? (fun rest => (openTag? rest).isSome) (c :: cs) with
  | none => simp
  | some k =>
      have htag := (Text.offsetOf?_eq_some_iff.1 hk).2.1
      match k with
      | 0 => simp [h] at htag
      | k + 1 => simp

/-- Length of the close tag at the head of a text. -/
def closeTagLength? : List Char → Option Nat
  | '?' :: '>' :: after => some (2 + lineBreakLength after)
  | _ => none

end PhpTokens.Lexer
