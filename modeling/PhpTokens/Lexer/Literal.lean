import PhpTokens.Lexer.CharClass

/-!
# String literals

A quoted literal ends at the first quote of its kind that no backslash escapes.
A heredoc begins with a header line that names a label, perhaps in quotes, and
runs through the first later line that begins with the label, perhaps indented,
where the label is not the beginning of a longer name. Only a line feed begins
a new line of the body.
-/

namespace PhpTokens.Lexer

/-- Length of a literal with quote `q`, with `n` characters of it already
passed. -/
def quotedFrom? (q : Char) (n : Nat) : List Char → Option Nat
  | [] => none
  | [c] => if c = q then some (n + 1) else none
  | c :: d :: cs =>
      if c = '\\' then quotedFrom? q (n + 2) cs
      else if c = q then some (n + 1)
      else quotedFrom? q (n + 1) (d :: cs)

theorem lt_of_quotedFrom?_eq_some {q : Char} {n k : Nat} {cs : List Char}
    (h : quotedFrom? q n cs = some k) : n < k := by
  fun_induction quotedFrom? q n cs <;> grind

/-- Length of the quoted literal at the head of a text, if it ends. -/
def quotedLength? : List Char → Option Nat
  | [] => none
  | q :: cs => quotedFrom? q 1 cs

theorem quotedLength?_pos {cs : List Char} {n : Nat} (h : quotedLength? cs = some n) : 0 < n := by
  match cs with
  | [] => simp [quotedLength?] at h
  | q :: cs => exact Nat.lt_of_le_of_lt (Nat.zero_le 1) (lt_of_quotedFrom?_eq_some h)

/-- The quote that opens a label, if one does. -/
def labelQuote? : List Char → Option Char
  | '\'' :: _ => some '\''
  | '"' :: _ => some '"'
  | _ => none

/-- Header of the heredoc at the head of a text: its length through the line
break, and the label. -/
def heredocHeader? : List Char → Option (Nat × List Char)
  | '<' :: '<' :: '<' :: after =>
      let indent := runLength isIndent after
      let opener := after.drop indent
      let quote := labelQuote? opener
      let quoteLength := if quote.isSome then 1 else 0
      let labelled := opener.drop quoteLength
      let label := labelled.takeWhile isNameChar
      let rest := labelled.drop label.length
      let closed := if quote.isSome then rest.head? = quote else true
      let lineBreak := lineBreakLength (rest.drop quoteLength)
      if (labelled.head?.any isNameStart) ∧ closed ∧ 0 < lineBreak then
        some (3 + indent + quoteLength + label.length + quoteLength + lineBreak, label)
      else none
  | _ => none

theorem heredocHeader?_length_pos {cs label : List Char} {n : Nat}
    (h : heredocHeader? cs = some (n, label)) : 0 < n := by
  unfold heredocHeader? at h
  split at h
  · simp only [Option.ite_none_right_eq_some, Option.some.injEq, Prod.mk.injEq] at h
    obtain ⟨-, rfl, -⟩ := h
    omega
  · simp at h

/-- Length of the closing label at the head of a line, with its indentation. -/
def closingLabel? (label cs : List Char) : Option Nat :=
  let indent := runLength isIndent cs
  let candidate := cs.drop indent
  if label.isPrefixOf candidate ∧ !((candidate.drop label.length).head?.any isNameChar) then
    some (indent + label.length)
  else none

/-- Length of a heredoc body, with `n` characters of it already passed. A closing
label counts only where a line begins. -/
def heredocBodyFrom? (label : List Char) (n : Nat) (lineBegins : Bool) : List Char → Option Nat
  | [] => if lineBegins then (closingLabel? label []).map (n + ·) else none
  | c :: cs =>
      match if lineBegins then closingLabel? label (c :: cs) else none with
      | some k => some (n + k)
      | none => heredocBodyFrom? label (n + 1) (c == '\n') cs

/-- Length of the heredoc body at the head of a text, through its closing
label. -/
def heredocBodyLength? (label cs : List Char) : Option Nat :=
  heredocBodyFrom? label 0 true cs

end PhpTokens.Lexer
