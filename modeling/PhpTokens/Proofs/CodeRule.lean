import PhpTokens.Lexer.Cut
import PhpTokens.Proofs.CharClass

/-!
# How code is cut, rule by rule

`cutCode` tries its rules in a fixed order, so what a rule may assume is hidden
in the failure of all the rules before it. `CodeRule` writes the assumptions
out: one case for each rule, with a guard that settles by itself whether the
rule applies. Most guards look at one character; only a mark, the last resort,
is defined by what it is not.

The guards exclude each other and leave nothing out, so the cases can be used
in both directions: to find out how a given cut came about (`cutCode_rule`),
and to compute the cut of a text from its first characters (`CodeRule.eq`).

Most theorems are about cuts that succeed. `CodeCut` lists those, type by type,
with the limits that they kept; it shows that neither the position nor anything
but the text and the flag has a part in them (`cutCode_eq_ok_iff`). Nothing
after this module unfolds `cutCode`.
-/

namespace PhpTokens

/-- Blanks and comments. -/
def TokenType.isTrivia : TokenType → Bool
  | .whitespace | .comment | .docComment => true
  | _ => false

theorem TokenType.any_isTrivia_iff {type? : Option TokenType} :
    type?.any isTrivia = true ↔
      type? = some .whitespace ∨ type? = some .comment ∨ type? = some .docComment := by
  cases type? with
  | none => simp
  | some type => cases type <;> simp [isTrivia]

/-- Blanks and comments. -/
def Lexeme.isTrivia (l : Lexeme) : Bool := l.type?.any TokenType.isTrivia

namespace Lexer

/-- The characters that trivia begin with. -/
def opensTrivia (c : Char) : Bool := isBlank c || c == '#' || c == '/'

/-- A text that no rule reads but the last. -/
structure IsMark (c : Char) (cs : List Char) : Prop where
  not_close : ¬ (c = '?' ∧ cs.head? = some '>')
  not_blank : isBlank c = false
  ne_hash : c ≠ '#'
  not_comment : ¬ (c = '/' ∧ (cs.head? = some '/' ∨ cs.head? = some '*'))
  not_variable : ¬ (c = '$' ∧ cs.head?.any isNameStart = true)
  not_name : isNameStart c = false
  ne_separator : c ≠ '\\'
  not_number : ¬ (c.isDigit = true ∨ (c = '.' ∧ cs.head?.any Char.isDigit = true))
  not_quote : ¬ (c = '\'' ∨ c = '"')
  not_heredoc : heredocHeader? (c :: cs) = none

/-- What the rule that applies makes of the text `c :: cs`. -/
inductive CodeRule [Limits] (pos : Position) (nameExpected : Bool) (c : Char) (cs : List Char) :
    Except LexError Cut → Prop where
  | closeTag {after : List Char} (hc : c = '?') (hcs : cs = '>' :: after) :
      CodeRule pos nameExpected c cs (.ok ⟨some .closeTag, 2 + lineBreakLength after⟩)
  | blanks (hc : isBlank c = true) :
      CodeRule pos nameExpected c cs (.ok ⟨some .whitespace, runLength isBlank (c :: cs)⟩)
  | hashComment (hc : c = '#') :
      CodeRule pos nameExpected c cs
        (cutComment .comment (lineCommentLength 1 (c :: cs)) (c :: cs))
  | slashComment (hc : c = '/') (hcs : cs.head? = some '/') :
      CodeRule pos nameExpected c cs
        (cutComment .comment (lineCommentLength 2 (c :: cs)) (c :: cs))
  | blockComment (hc : c = '/') (hcs : cs.head? = some '*') :
      CodeRule pos nameExpected c cs (cutBlockComment pos (c :: cs))
  | variableName (hc : c = '$') (hcs : cs.head?.any isNameStart = true) :
      CodeRule pos nameExpected c cs (cutVariable (c :: cs))
  | word (hc : isNameStart c = true) :
      CodeRule pos nameExpected c cs (cutWord nameExpected (c :: cs))
  | separator (hc : c = '\\') :
      CodeRule pos nameExpected c cs (.ok ⟨some .nsSeparator, 1⟩)
  | number (hc : c.isDigit = true ∨ (c = '.' ∧ cs.head?.any Char.isDigit = true)) :
      CodeRule pos nameExpected c cs
        (.ok ⟨some (number (c :: cs)).1, (number (c :: cs)).2⟩)
  | quoted (hc : c = '\'' ∨ c = '"') :
      CodeRule pos nameExpected c cs (cutString pos (quotedLength? (c :: cs)) (c :: cs))
  | heredoc {n : Nat} {label : List Char} (h : heredocHeader? (c :: cs) = some (n, label)) :
      CodeRule pos nameExpected c cs
        (cutString pos ((heredocBodyLength? label ((c :: cs).drop n)).map (n + ·)) (c :: cs))
  | mark (h : IsMark c cs) : CodeRule pos nameExpected c cs (cutMark pos c cs)

theorem closeTagLength?_eq_none_iff {c : Char} {cs : List Char} :
    closeTagLength? (c :: cs) = none ↔ ¬ (c = '?' ∧ cs.head? = some '>') := by
  unfold closeTagLength?
  split
  · next h =>
      cases h
      simp
  · next h =>
      simp only [true_iff]
      intro hclose
      obtain ⟨rfl, hcs⟩ := hclose
      obtain ⟨after, rfl⟩ := List.head?_eq_some_iff.1 hcs
      exact h after rfl

theorem head_of_heredocHeader? {c : Char} {cs label : List Char} {n : Nat}
    (h : heredocHeader? (c :: cs) = some (n, label)) :
    c = '<' ∧ ∃ after, cs = '<' :: '<' :: after := by
  unfold heredocHeader? at h
  split at h
  · next after heq =>
      cases heq
      exact ⟨rfl, after, rfl⟩
  · cases h

/-- The rule that applies computes the cut. -/
theorem CodeRule.eq [Limits] {pos : Position} {nameExpected : Bool} {c : Char} {cs : List Char}
    {r : Except LexError Cut} (h : CodeRule pos nameExpected c cs r) :
    cutCode pos nameExpected c cs = r := by
  cases h with
  | closeTag hc hcs =>
      subst hc hcs
      rfl
  | blanks hc =>
      have hclose : closeTagLength? (c :: cs) = none :=
        closeTagLength?_eq_none_iff.2 fun h => ne_of_class hc (by decide) h.1
      simp only [cutCode, hclose, if_pos hc]
  | hashComment hc =>
      subst hc
      rfl
  | slashComment hc hcs =>
      subst hc
      simp [cutCode, closeTagLength?, isBlank, hcs]
  | blockComment hc hcs =>
      subst hc
      simp [cutCode, closeTagLength?, isBlank, hcs]
  | variableName hc hcs =>
      subst hc
      simp [cutCode, closeTagLength?, isBlank, hcs]
  | word hc =>
      have hclose : closeTagLength? (c :: cs) = none :=
        closeTagLength?_eq_none_iff.2 fun h => ne_of_class hc (by decide) h.1
      have hblank : isBlank c = false :=
        isBlank_eq_false_of_isNameChar (isNameChar_iff.2 (.inl hc))
      have hhash : c ≠ '#' := ne_of_class hc (by decide)
      have hslash : c ≠ '/' := ne_of_class hc (by decide)
      have hdollar : c ≠ '$' := ne_of_class hc (by decide)
      simp [cutCode, hclose, hblank, hhash, hslash, hdollar, hc]
  | separator hc =>
      subst hc
      simp [cutCode, closeTagLength?, isBlank, isNameStart]
  | number hc =>
      rcases hc with hc | ⟨rfl, hcs⟩
      · have hclose : closeTagLength? (c :: cs) = none :=
          closeTagLength?_eq_none_iff.2 fun h => ne_of_class hc (by decide) h.1
        have hblank : isBlank c = false :=
          isBlank_eq_false_of_isNameChar (isNameChar_iff.2 (.inr hc))
        have hhash : c ≠ '#' := ne_of_class hc (by decide)
        have hslash : c ≠ '/' := ne_of_class hc (by decide)
        have hdollar : c ≠ '$' := ne_of_class hc (by decide)
        have hseparator : c ≠ '\\' := ne_of_class hc (by decide)
        simp [cutCode, hclose, hblank, hhash, hslash, hdollar, hseparator,
          isNameStart_eq_false_of_isDigit hc, hc]
      · simp [cutCode, closeTagLength?, isBlank, isNameStart, hcs]
  | quoted hc =>
      rcases hc with rfl | rfl <;> simp [cutCode, closeTagLength?, isBlank, isNameStart]
  | heredoc h =>
      obtain ⟨rfl, -⟩ := head_of_heredocHeader? h
      simp [cutCode, closeTagLength?, isBlank, isNameStart, h]
  | mark h =>
      have hclose : closeTagLength? (c :: cs) = none := closeTagLength?_eq_none_iff.2 h.not_close
      have hslash : ¬ (c = '/' ∧ cs.head? = some '/') := fun hc => h.not_comment ⟨hc.1, .inl hc.2⟩
      have hstar : ¬ (c = '/' ∧ cs.head? = some '*') := fun hc => h.not_comment ⟨hc.1, .inr hc.2⟩
      simp only [cutCode, hclose, h.not_blank, if_neg h.ne_hash, if_neg hslash, if_neg hstar,
        if_neg h.not_variable, h.not_name, if_neg h.ne_separator, if_neg h.not_number,
        if_neg h.not_quote, h.not_heredoc, Bool.false_eq_true, if_false]

/-- Some rule applies, and it is the one that `cutCode` uses. -/
theorem cutCode_rule [Limits] (pos : Position) (nameExpected : Bool) (c : Char) (cs : List Char) :
    CodeRule pos nameExpected c cs (cutCode pos nameExpected c cs) := by
  -- The rules are tried in the order of `cutCode`; what is left over is a mark.
  have of_rule : ∀ {r}, CodeRule pos nameExpected c cs r →
      CodeRule pos nameExpected c cs (cutCode pos nameExpected c cs) := by
    intro r h
    rw [h.eq]
    exact h
  by_cases hclose : c = '?' ∧ cs.head? = some '>'
  · obtain ⟨after, hcs⟩ := List.head?_eq_some_iff.1 hclose.2
    exact of_rule (.closeTag hclose.1 hcs)
  by_cases hblank : isBlank c = true
  · exact of_rule (.blanks hblank)
  by_cases hhash : c = '#'
  · exact of_rule (.hashComment hhash)
  by_cases hslash : c = '/' ∧ cs.head? = some '/'
  · exact of_rule (.slashComment hslash.1 hslash.2)
  by_cases hstar : c = '/' ∧ cs.head? = some '*'
  · exact of_rule (.blockComment hstar.1 hstar.2)
  by_cases hvariable : c = '$' ∧ cs.head?.any isNameStart = true
  · exact of_rule (.variableName hvariable.1 hvariable.2)
  by_cases hname : isNameStart c = true
  · exact of_rule (.word hname)
  by_cases hseparator : c = '\\'
  · exact of_rule (.separator hseparator)
  by_cases hnumber : c.isDigit = true ∨ (c = '.' ∧ cs.head?.any Char.isDigit = true)
  · exact of_rule (.number hnumber)
  by_cases hquote : c = '\'' ∨ c = '"'
  · exact of_rule (.quoted hquote)
  cases hheredoc : heredocHeader? (c :: cs) with
  | some header => exact of_rule (.heredoc hheredoc)
  | none =>
      refine of_rule (.mark ⟨hclose, eq_false_of_ne_true hblank, hhash, ?_, hvariable,
        eq_false_of_ne_true hname, hseparator, hnumber, hquote, hheredoc⟩)
      intro hcomment
      rcases hcomment with ⟨hc, hcs | hcs⟩
      · exact hslash ⟨hc, hcs⟩
      · exact hstar ⟨hc, hcs⟩

/-! ## Cuts that succeed -/

theorem cutComment_eq_ok_iff [Limits] {type : TokenType} {n : Nat} {cs : List Char} {cut : Cut} :
    cutComment type n cs = .ok cut ↔
      Text.byteLength (cs.take n) ≤ Limits.commentBytes ∧ cut = ⟨some type, n⟩ := by
  simp only [cutComment]
  split
  · next h => simp only [reduceCtorEq, Nat.not_le_of_lt h, false_and]
  · next h => simp only [Except.ok.injEq, Nat.le_of_not_lt h, true_and, eq_comm]

theorem cutBlockComment_eq_ok_iff [Limits] {pos : Position} {cs : List Char} {cut : Cut} :
    cutBlockComment pos cs = .ok cut ↔
      ∃ n, blockCommentLength? cs = some n ∧ Text.byteLength (cs.take n) ≤ Limits.commentBytes ∧
        cut = ⟨some (if isDocComment cs then .docComment else .comment), n⟩ := by
  simp only [cutBlockComment]
  split
  · next h => simp [h]
  · next n h => simp [h, cutComment_eq_ok_iff]

theorem cutString_eq_ok_iff [Limits] {pos : Position} {n? : Option Nat} {cs : List Char}
    {cut : Cut} :
    cutString pos n? cs = .ok cut ↔
      ∃ n, n? = some n ∧ Text.byteLength (cs.take n) ≤ Limits.stringBytes ∧
        cut = ⟨some .stringLiteral, n⟩ := by
  cases n? with
  | none => simp [cutString]
  | some n =>
      simp only [cutString, Option.some.injEq, exists_eq_left']
      split
      · next h => simp only [reduceCtorEq, Nat.not_le_of_lt h, false_and]
      · next h => simp only [Except.ok.injEq, Nat.le_of_not_lt h, true_and, eq_comm]

theorem cutVariable_eq_ok_iff [Limits] {c : Char} {cs : List Char} {cut : Cut} :
    cutVariable (c :: cs) = .ok cut ↔
      Text.byteLength (cs.takeWhile isNameChar) ≤ Limits.nameBytes ∧
        cut = ⟨some .variableName, 1 + (cs.takeWhile isNameChar).length⟩ := by
  simp only [cutVariable, List.drop_succ_cons, List.drop_zero]
  split
  · next h => simp only [reduceCtorEq, Nat.not_le_of_lt h, false_and]
  · next h => simp only [Except.ok.injEq, Nat.le_of_not_lt h, true_and, eq_comm]

theorem cutWord_eq_ok_iff [Limits] {nameExpected : Bool} {cs : List Char} {cut : Cut} :
    cutWord nameExpected cs = .ok cut ↔
      Text.byteLength (cs.takeWhile isNameChar) ≤ Limits.nameBytes ∧
        cut = ⟨some (wordType nameExpected (cs.takeWhile isNameChar)),
          (cs.takeWhile isNameChar).length⟩ := by
  simp only [cutWord]
  split
  · next h => simp only [reduceCtorEq, Nat.not_le_of_lt h, false_and]
  · next h => simp only [Except.ok.injEq, Nat.le_of_not_lt h, true_and, eq_comm]

theorem cutMark_eq_ok_iff {pos : Position} {c : Char} {cs : List Char} {cut : Cut} :
    cutMark pos c cs = .ok cut ↔
      (∃ o n, Operator.leading? (c :: cs) = some (o, n) ∧ cut = ⟨some (.operator o), n⟩) ∨
        (Operator.leading? (c :: cs) = none ∧ isPunctuation c = true ∧ cut = ⟨none, 1⟩) := by
  simp only [cutMark]
  split
  · next o n h =>
      rw [h]
      constructor
      · intro hcut
        cases hcut
        exact .inl ⟨o, n, rfl, rfl⟩
      · intro hcut
        rcases hcut with ⟨o', n', ho, rfl⟩ | ⟨hnone, -⟩
        · cases ho
          rfl
        · cases hnone
  · next h =>
      rw [h]
      split
      · next hc => simp [hc, eq_comm]
      · next hc => simp [hc]

theorem number_type (cs : List Char) :
    (number cs).1 = .integerLiteral ∨ (number cs).1 = .floatLiteral := by
  simp only [number]
  split
  · exact .inl rfl
  · simp only [decimalNumber]
    split
    · exact .inl rfl
    · exact .inr rfl

/-- The marks that open a line comment, with their lengths. -/
inductive OpensLineComment (c : Char) (cs : List Char) : Nat → Prop where
  | hash (hc : c = '#') : OpensLineComment c cs 1
  | slashes (hc : c = '/') (hcs : cs.head? = some '/') : OpensLineComment c cs 2

/-- The cuts of the text `c :: cs` that succeed. -/
inductive CodeCut [Limits] (nameExpected : Bool) (c : Char) (cs : List Char) : Cut → Prop where
  | closeTag {after : List Char} {n : Nat} (hc : c = '?') (hcs : cs = '>' :: after)
      (hn : lineBreakLength after = n) : CodeCut nameExpected c cs ⟨some .closeTag, 2 + n⟩
  | blanks {n : Nat} (hc : isBlank c = true) (hn : runLength isBlank (c :: cs) = n) :
      CodeCut nameExpected c cs ⟨some .whitespace, n⟩
  | lineComment {mark n : Nat} (hmark : OpensLineComment c cs mark)
      (hn : lineCommentLength mark (c :: cs) = n)
      (hsize : Text.byteLength ((c :: cs).take n) ≤ Limits.commentBytes) :
      CodeCut nameExpected c cs ⟨some .comment, n⟩
  | blockComment {n : Nat} (hc : c = '/') (hcs : cs.head? = some '*')
      (hn : blockCommentLength? (c :: cs) = some n) (hdoc : isDocComment (c :: cs) = false)
      (hsize : Text.byteLength ((c :: cs).take n) ≤ Limits.commentBytes) :
      CodeCut nameExpected c cs ⟨some .comment, n⟩
  | docComment {n : Nat} (hc : c = '/') (hcs : cs.head? = some '*')
      (hn : blockCommentLength? (c :: cs) = some n) (hdoc : isDocComment (c :: cs) = true)
      (hsize : Text.byteLength ((c :: cs).take n) ≤ Limits.commentBytes) :
      CodeCut nameExpected c cs ⟨some .docComment, n⟩
  | variableName {name : List Char} (hc : c = '$') (hcs : cs.head?.any isNameStart = true)
      (hname : cs.takeWhile isNameChar = name) (hsize : Text.byteLength name ≤ Limits.nameBytes) :
      CodeCut nameExpected c cs ⟨some .variableName, 1 + name.length⟩
  | keyword {word : List Char} {k : Keyword} (hc : isNameStart c = true)
      (hword : (c :: cs).takeWhile isNameChar = word)
      (hk : Keyword.ofWord? (String.ofList word) = some k) (hname : nameExpected = false)
      (hsize : Text.byteLength word ≤ Limits.nameBytes) :
      CodeCut nameExpected c cs ⟨some (.keyword k), word.length⟩
  | identifier {word : List Char} (hc : isNameStart c = true)
      (hword : (c :: cs).takeWhile isNameChar = word)
      (hname : Keyword.ofWord? (String.ofList word) = none ∨ nameExpected = true)
      (hsize : Text.byteLength word ≤ Limits.nameBytes) :
      CodeCut nameExpected c cs ⟨some .identifier, word.length⟩
  | separator (hc : c = '\\') : CodeCut nameExpected c cs ⟨some .nsSeparator, 1⟩
  | integer {n : Nat} (hc : c.isDigit = true ∨ (c = '.' ∧ cs.head?.any Char.isDigit = true))
      (hn : number (c :: cs) = (.integerLiteral, n)) :
      CodeCut nameExpected c cs ⟨some .integerLiteral, n⟩
  | float {n : Nat} (hc : c.isDigit = true ∨ (c = '.' ∧ cs.head?.any Char.isDigit = true))
      (hn : number (c :: cs) = (.floatLiteral, n)) :
      CodeCut nameExpected c cs ⟨some .floatLiteral, n⟩
  | quoted {n : Nat} (hc : c = '\'' ∨ c = '"') (hn : quotedLength? (c :: cs) = some n)
      (hsize : Text.byteLength ((c :: cs).take n) ≤ Limits.stringBytes) :
      CodeCut nameExpected c cs ⟨some .stringLiteral, n⟩
  | heredoc {n k : Nat} {label : List Char} (hheader : heredocHeader? (c :: cs) = some (k, label))
      (hn : (heredocBodyLength? label ((c :: cs).drop k)).map (k + ·) = some n)
      (hsize : Text.byteLength ((c :: cs).take n) ≤ Limits.stringBytes) :
      CodeCut nameExpected c cs ⟨some .stringLiteral, n⟩
  | operator {o : Operator} {n : Nat} (hmark : IsMark c cs)
      (ho : Operator.leading? (c :: cs) = some (o, n)) :
      CodeCut nameExpected c cs ⟨some (.operator o), n⟩
  | bare (hmark : IsMark c cs) (ho : Operator.leading? (c :: cs) = none)
      (hc : isPunctuation c = true) : CodeCut nameExpected c cs ⟨none, 1⟩

theorem CodeCut.of_rule [Limits] {pos : Position} {nameExpected : Bool} {c : Char} {cs : List Char}
    {cut : Cut} (hrule : CodeRule pos nameExpected c cs (.ok cut)) :
    CodeCut nameExpected c cs cut := by
  generalize hresult : Except.ok cut = result at hrule
  cases hrule with
  | closeTag hc hcs =>
      cases hresult
      exact .closeTag hc hcs rfl
  | blanks hc =>
      cases hresult
      exact .blanks hc rfl
  | hashComment hc =>
      obtain ⟨hsize, rfl⟩ := cutComment_eq_ok_iff.1 hresult.symm
      exact .lineComment (.hash hc) rfl hsize
  | slashComment hc hcs =>
      obtain ⟨hsize, rfl⟩ := cutComment_eq_ok_iff.1 hresult.symm
      exact .lineComment (.slashes hc hcs) rfl hsize
  | blockComment hc hcs =>
      obtain ⟨n, hn, hsize, rfl⟩ := cutBlockComment_eq_ok_iff.1 hresult.symm
      split
      · next hdoc => exact .docComment hc hcs hn hdoc hsize
      · next hdoc => exact .blockComment hc hcs hn (eq_false_of_ne_true hdoc) hsize
  | variableName hc hcs =>
      obtain ⟨hsize, rfl⟩ := cutVariable_eq_ok_iff.1 hresult.symm
      exact .variableName hc hcs rfl hsize
  | word hc =>
      obtain ⟨hsize, rfl⟩ := cutWord_eq_ok_iff.1 hresult.symm
      unfold wordType
      split
      · next k hk =>
          cases nameExpected with
          | true => exact .identifier hc rfl (.inr rfl) hsize
          | false => exact .keyword hc rfl hk rfl hsize
      · next hk => exact .identifier hc rfl (.inl hk) hsize
  | separator hc =>
      cases hresult
      exact .separator hc
  | number hc =>
      cases hresult
      rcases number_type (c :: cs) with htype | htype
      · rw [htype]
        exact .integer hc (Prod.ext htype rfl)
      · rw [htype]
        exact .float hc (Prod.ext htype rfl)
  | quoted hc =>
      obtain ⟨n, hn, hsize, rfl⟩ := cutString_eq_ok_iff.1 hresult.symm
      exact .quoted hc hn hsize
  | heredoc hheader =>
      obtain ⟨n, hn, hsize, rfl⟩ := cutString_eq_ok_iff.1 hresult.symm
      exact .heredoc hheader hn hsize
  | mark hmark =>
      rcases cutMark_eq_ok_iff.1 hresult.symm with ⟨o, n, ho, rfl⟩ | ⟨ho, hc, rfl⟩
      · exact .operator hmark ho
      · exact .bare hmark ho hc

theorem CodeCut.eq [Limits] {nameExpected : Bool} {c : Char} {cs : List Char} {cut : Cut}
    (h : CodeCut nameExpected c cs cut) (pos : Position) :
    cutCode pos nameExpected c cs = .ok cut := by
  cases h with
  | closeTag hc hcs hn => rw [CodeRule.eq (.closeTag hc hcs), hn]
  | blanks hc hn => rw [CodeRule.eq (.blanks hc), hn]
  | lineComment hmark hn hsize =>
      subst hn
      cases hmark with
      | hash hc =>
          rw [CodeRule.eq (.hashComment hc)]
          exact cutComment_eq_ok_iff.2 ⟨hsize, rfl⟩
      | slashes hc hcs =>
          rw [CodeRule.eq (.slashComment hc hcs)]
          exact cutComment_eq_ok_iff.2 ⟨hsize, rfl⟩
  | blockComment hc hcs hn hdoc hsize =>
      rw [CodeRule.eq (.blockComment hc hcs)]
      exact cutBlockComment_eq_ok_iff.2 ⟨_, hn, hsize, by rw [hdoc]; rfl⟩
  | docComment hc hcs hn hdoc hsize =>
      rw [CodeRule.eq (.blockComment hc hcs)]
      exact cutBlockComment_eq_ok_iff.2 ⟨_, hn, hsize, by rw [hdoc]; rfl⟩
  | variableName hc hcs hname hsize =>
      subst hname
      rw [CodeRule.eq (.variableName hc hcs)]
      exact cutVariable_eq_ok_iff.2 ⟨hsize, rfl⟩
  | keyword hc hword hk hname hsize =>
      subst hword hname
      rw [CodeRule.eq (.word hc)]
      exact cutWord_eq_ok_iff.2 ⟨hsize, by simp [wordType, hk]⟩
  | identifier hc hword hname hsize =>
      subst hword
      rw [CodeRule.eq (.word hc)]
      refine cutWord_eq_ok_iff.2 ⟨hsize, ?_⟩
      rcases hname with hk | rfl
      · simp [wordType, hk]
      · unfold wordType
        split <;> rfl
  | separator hc => exact CodeRule.eq (.separator hc)
  | integer hc hn => rw [CodeRule.eq (.number hc), hn]
  | float hc hn => rw [CodeRule.eq (.number hc), hn]
  | quoted hc hn hsize =>
      rw [CodeRule.eq (.quoted hc)]
      exact cutString_eq_ok_iff.2 ⟨_, hn, hsize, rfl⟩
  | heredoc hheader hn hsize =>
      rw [CodeRule.eq (.heredoc hheader)]
      exact cutString_eq_ok_iff.2 ⟨_, hn, hsize, rfl⟩
  | operator hmark ho =>
      rw [CodeRule.eq (.mark hmark)]
      exact cutMark_eq_ok_iff.2 (.inl ⟨_, _, ho, rfl⟩)
  | bare hmark ho hc =>
      rw [CodeRule.eq (.mark hmark)]
      exact cutMark_eq_ok_iff.2 (.inr ⟨ho, hc, rfl⟩)

/-- A cut that succeeds depends on the text and the flag alone. -/
theorem cutCode_eq_ok_iff [Limits] {pos : Position} {nameExpected : Bool} {c : Char}
    {cs : List Char}
    {cut : Cut} : cutCode pos nameExpected c cs = .ok cut ↔ CodeCut nameExpected c cs cut := by
  constructor
  · intro h
    have hrule := cutCode_rule pos nameExpected c cs
    rw [h] at hrule
    exact .of_rule hrule
  · intro h
    exact h.eq pos

theorem CodeCut.opensTrivia [Limits] {nameExpected : Bool} {c : Char} {cs : List Char} {cut : Cut}
    (h : CodeCut nameExpected c cs cut) (htrivia : cut.type?.any TokenType.isTrivia = true) :
    opensTrivia c = true := by
  cases h with
  | blanks hc _ => simp [Lexer.opensTrivia, hc]
  | lineComment hmark _ _ => cases hmark <;> simp_all [Lexer.opensTrivia]
  | blockComment hc _ _ _ _ | docComment hc _ _ _ _ => simp [Lexer.opensTrivia, hc]
  | _ => cases htrivia

end Lexer

end PhpTokens
