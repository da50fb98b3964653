import PhpTokens.Lexer.CharClass

/-!
# Comments

A line comment runs through the line break that ends it, or stops before a
close tag. A block comment runs through the first `*/` after its opening, which
takes two characters of its own. It documents something if `/**` and a blank
begin it.
-/

namespace PhpTokens.Lexer

/-- Length of a line comment, with `n` characters of it already passed. -/
def lineCommentFrom (n : Nat) : List Char → Nat
  | [] => n
  | '\n' :: _ => n + 1
  | '\r' :: '\n' :: _ => n + 2
  | '\r' :: _ => n + 1
  | '?' :: '>' :: _ => n
  | _ :: cs => lineCommentFrom (n + 1) cs

theorem le_lineCommentFrom (n : Nat) (cs : List Char) : n ≤ lineCommentFrom n cs := by
  fun_induction lineCommentFrom n cs <;> omega

/-- Length of a line comment whose mark takes the first `mark` characters. -/
def lineCommentLength (mark : Nat) (cs : List Char) : Nat :=
  lineCommentFrom mark (cs.drop mark)

theorem le_lineCommentLength (mark : Nat) (cs : List Char) : mark ≤ lineCommentLength mark cs :=
  le_lineCommentFrom mark (cs.drop mark)

/-- Length of a block comment, with `n` characters of it already passed. -/
def blockCommentFrom? (n : Nat) : List Char → Option Nat
  | [] => none
  | '*' :: '/' :: _ => some (n + 2)
  | _ :: cs => blockCommentFrom? (n + 1) cs

theorem lt_of_blockCommentFrom?_eq_some {n k : Nat} {cs : List Char}
    (h : blockCommentFrom? n cs = some k) : n < k := by
  fun_induction blockCommentFrom? n cs with
  | case1 => simp at h
  | case2 n cs => simp at h; omega
  | case3 n c cs _ ih => have := ih h; omega

/-- Length of the block comment at the head of a text, if it ends. -/
def blockCommentLength? (cs : List Char) : Option Nat :=
  blockCommentFrom? 2 (cs.drop 2)

theorem blockCommentLength?_pos {cs : List Char} {n : Nat}
    (h : blockCommentLength? cs = some n) : 0 < n :=
  Nat.lt_of_le_of_lt (Nat.zero_le 2) (lt_of_blockCommentFrom?_eq_some h)

/-- Whether the block comment at the head of a text documents something. -/
def isDocComment : List Char → Bool
  | '/' :: '*' :: '*' :: c :: _ => isBlank c
  | _ => false

end PhpTokens.Lexer
