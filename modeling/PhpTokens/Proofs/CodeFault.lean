import PhpTokens.Proofs.CodeRule
import PhpTokens.Proofs.LongestMatch

/-!
# How code fails to be cut

`CodeCut` lists the cuts that succeed; `CodeFault` lists the others, one case
for each rule that can fail and each reason that it has. A text that begins no
lexeme begins with a control character, and nothing else: every other character
is taken by some rule (`isControl_of_isMark`), and a control character by none
(`IsControl.isMark`). A comment or a string literal fails if it has no end, and
then the error says where it begins, or if it is too long, and then the error
says how long it is. A name fails only if it is too long.

`cutCode_eq_error_iff` says that these are the failures.
-/

namespace PhpTokens.Lexer

/-- The control characters of ASCII that are not blanks. -/
structure IsControl (c : Char) : Prop where
  ascii : c.toNat < 32 ∨ c.toNat = 127
  ne_tab : c ≠ '\t'
  ne_feed : c ≠ '\n'
  ne_return : c ≠ '\r'

/-! ## Control characters -/

theorem isPunctuation_iff {c : Char} :
    isPunctuation c = true ↔ (33 ≤ c.toNat ∧ c.toNat ≤ 47) ∨ (58 ≤ c.toNat ∧ c.toNat ≤ 64) ∨
      (91 ≤ c.toNat ∧ c.toNat ≤ 96) ∨ (123 ≤ c.toNat ∧ c.toNat ≤ 126) := by
  simp only [isPunctuation, Bool.or_eq_true, Bool.and_eq_true, decide_eq_true_eq, or_assoc]

namespace IsControl

variable {c : Char}

theorem isBlank_eq_false (h : IsControl c) : isBlank c = false := by
  have htab : c.toNat ≠ 9 := fun hc => h.ne_tab (Char.toNat_inj.1 hc)
  have hfeed : c.toNat ≠ 10 := fun hc => h.ne_feed (Char.toNat_inj.1 hc)
  have hreturn : c.toNat ≠ 13 := fun hc => h.ne_return (Char.toNat_inj.1 hc)
  have hascii := h.ascii
  rw [← Bool.not_eq_true, isBlank_iff]
  omega

theorem isNameStart_eq_false (h : IsControl c) : isNameStart c = false := by
  have hascii := h.ascii
  rw [← Bool.not_eq_true, isNameStart_iff]
  omega

theorem isDigit_eq_false (h : IsControl c) : c.isDigit = false := by
  have hascii := h.ascii
  rw [← Bool.not_eq_true, isDigit_iff]
  omega

theorem isPunctuation_eq_false (h : IsControl c) : isPunctuation c = false := by
  have hascii := h.ascii
  rw [← Bool.not_eq_true, isPunctuation_iff]
  omega

theorem ne_of_isPunctuation (h : IsControl c) {x : Char} (hx : isPunctuation x = true) :
    c ≠ x := by
  intro heq
  subst heq
  exact absurd (hx.symm.trans h.isPunctuation_eq_false) (by simp)

/-- No rule but the last reads a control character. -/
theorem isMark (h : IsControl c) (cs : List Char) : IsMark c cs where
  not_close := fun hc => h.ne_of_isPunctuation (by decide) hc.1
  not_blank := h.isBlank_eq_false
  ne_hash := h.ne_of_isPunctuation (by decide)
  not_comment := fun hc => h.ne_of_isPunctuation (by decide) hc.1
  not_variable := fun hc => h.ne_of_isPunctuation (by decide) hc.1
  not_name := h.isNameStart_eq_false
  ne_separator := h.ne_of_isPunctuation (by decide)
  not_number := by
    intro hc
    rcases hc with hc | ⟨hc, -⟩
    · exact absurd (hc.symm.trans h.isDigit_eq_false) (by simp)
    · exact h.ne_of_isPunctuation (by decide) hc
  not_quote := by
    intro hc
    rcases hc with hc | hc
    · exact h.ne_of_isPunctuation (by decide) hc
    · exact h.ne_of_isPunctuation (by decide) hc
  not_heredoc := by
    cases hheader : heredocHeader? (c :: cs) with
    | none => rfl
    | some header =>
        exact absurd (head_of_heredocHeader? hheader).1 (h.ne_of_isPunctuation (by decide))

/-- Operators are made of punctuation marks. -/
theorem leading?_eq_none (h : IsControl c) (cs : List Char) :
    Operator.leading? (c :: cs) = none := by
  rw [Operator.leading?_eq_none_iff]
  intro t ht hsymbol
  have hmarks := Operator.of_isSymbol (p := fun t => t.all isPunctuation) hsymbol
    (by decide)
  match t with
  | [] => exact absurd hsymbol.length_mem (by decide)
  | d :: t =>
      obtain rfl := (List.cons_prefix_cons.1 ht).1
      rw [List.all_cons, h.isPunctuation_eq_false] at hmarks
      cases hmarks

end IsControl

/-- What no other rule reads is a punctuation mark or a control character. -/
theorem isControl_of_isMark {c : Char} {cs : List Char} (h : IsMark c cs)
    (hc : isPunctuation c = false) : IsControl c := by
  have hblank := h.not_blank
  have hname := h.not_name
  have hdigit : ¬ c.isDigit = true := fun hd => h.not_number (.inl hd)
  rw [← Bool.not_eq_true, isBlank_iff] at hblank
  rw [← Bool.not_eq_true, isNameStart_iff] at hname
  rw [isDigit_iff] at hdigit
  rw [← Bool.not_eq_true, isPunctuation_iff] at hc
  refine ⟨by omega, ?_, ?_, ?_⟩
  · intro htab
    subst htab
    exact hblank (by decide)
  · intro hfeed
    subst hfeed
    exact hblank (by decide)
  · intro hreturn
    subst hreturn
    exact hblank (by decide)

/-! ## The cuts that a rule ends in -/

theorem cutComment_eq_error_iff [Limits] {type : TokenType} {n : Nat} {cs : List Char}
    {e : LexError} :
    cutComment type n cs = .error e ↔
      Limits.commentBytes < Text.byteLength (cs.take n) ∧
        e = .commentTooLong (Text.byteLength (cs.take n)) := by
  simp only [cutComment]
  split
  · next h => simp only [Except.error.injEq, h, true_and, eq_comm]
  · next h => simp only [reduceCtorEq, h, false_and]

theorem cutBlockComment_eq_error_iff [Limits] {pos : Position} {cs : List Char} {e : LexError} :
    cutBlockComment pos cs = .error e ↔
      (blockCommentLength? cs = none ∧ e = .unterminatedComment pos.line pos.column) ∨
        ∃ n, blockCommentLength? cs = some n ∧
          Limits.commentBytes < Text.byteLength (cs.take n) ∧
          e = .commentTooLong (Text.byteLength (cs.take n)) := by
  simp only [cutBlockComment]
  split
  · next h => simp [h, eq_comm]
  · next n h => simp [h, cutComment_eq_error_iff]

theorem cutString_eq_error_iff [Limits] {pos : Position} {n? : Option Nat} {cs : List Char}
    {e : LexError} :
    cutString pos n? cs = .error e ↔
      (n? = none ∧ e = .unterminatedString pos.line pos.column) ∨
        ∃ n, n? = some n ∧ Limits.stringBytes < Text.byteLength (cs.take n) ∧
          e = .stringTooLarge (Text.byteLength (cs.take n)) := by
  cases n? with
  | none => simp [cutString, eq_comm]
  | some n =>
      simp only [cutString, reduceCtorEq, false_and, false_or, Option.some.injEq,
        exists_eq_left']
      split
      · next h => simp only [Except.error.injEq, h, true_and, eq_comm]
      · next h => simp only [reduceCtorEq, h, false_and]

theorem cutVariable_eq_error_iff [Limits] {c : Char} {cs : List Char} {e : LexError} :
    cutVariable (c :: cs) = .error e ↔
      Limits.nameBytes < Text.byteLength (cs.takeWhile isNameChar) ∧
        e = .identifierTooLong (Text.byteLength (cs.takeWhile isNameChar)) := by
  simp only [cutVariable, List.drop_succ_cons, List.drop_zero]
  split
  · next h => simp only [Except.error.injEq, h, true_and, eq_comm]
  · next h => simp only [reduceCtorEq, h, false_and]

theorem cutWord_eq_error_iff [Limits] {nameExpected : Bool} {cs : List Char} {e : LexError} :
    cutWord nameExpected cs = .error e ↔
      Limits.nameBytes < Text.byteLength (cs.takeWhile isNameChar) ∧
        e = .identifierTooLong (Text.byteLength (cs.takeWhile isNameChar)) := by
  simp only [cutWord]
  split
  · next h => simp only [Except.error.injEq, h, true_and, eq_comm]
  · next h => simp only [reduceCtorEq, h, false_and]

theorem cutMark_eq_error_iff {pos : Position} {c : Char} {cs : List Char} {e : LexError} :
    cutMark pos c cs = .error e ↔
      Operator.leading? (c :: cs) = none ∧ isPunctuation c = false ∧
        e = .invalidCharacter c pos.line pos.column := by
  simp only [cutMark]
  split
  · next h => simp [h]
  · next h =>
      split
      · next hc => simp [hc]
      · next hc => simp [h, hc, eq_comm]

/-! ## Cuts that fail -/

/-- The failures to cut the text `c :: cs`. -/
inductive CodeFault [Limits] (pos : Position) (c : Char) (cs : List Char) : LexError → Prop where
  | control (hc : IsControl c) : CodeFault pos c cs (.invalidCharacter c pos.line pos.column)
  | openComment (hc : c = '/') (hcs : cs.head? = some '*')
      (hn : blockCommentLength? (c :: cs) = none) :
      CodeFault pos c cs (.unterminatedComment pos.line pos.column)
  | openQuoted (hc : c = '\'' ∨ c = '"') (hn : quotedLength? (c :: cs) = none) :
      CodeFault pos c cs (.unterminatedString pos.line pos.column)
  | openHeredoc {k : Nat} {label : List Char} (hheader : heredocHeader? (c :: cs) = some (k, label))
      (hn : heredocBodyLength? label ((c :: cs).drop k) = none) :
      CodeFault pos c cs (.unterminatedString pos.line pos.column)
  | longLineComment {mark n : Nat} (hmark : OpensLineComment c cs mark)
      (hn : lineCommentLength mark (c :: cs) = n)
      (hsize : Limits.commentBytes < Text.byteLength ((c :: cs).take n)) :
      CodeFault pos c cs (.commentTooLong (Text.byteLength ((c :: cs).take n)))
  | longBlockComment {n : Nat} (hc : c = '/') (hcs : cs.head? = some '*')
      (hn : blockCommentLength? (c :: cs) = some n)
      (hsize : Limits.commentBytes < Text.byteLength ((c :: cs).take n)) :
      CodeFault pos c cs (.commentTooLong (Text.byteLength ((c :: cs).take n)))
  | longVariable {name : List Char} (hc : c = '$') (hcs : cs.head?.any isNameStart = true)
      (hname : cs.takeWhile isNameChar = name) (hsize : Limits.nameBytes < Text.byteLength name) :
      CodeFault pos c cs (.identifierTooLong (Text.byteLength name))
  | longWord {word : List Char} (hc : isNameStart c = true)
      (hword : (c :: cs).takeWhile isNameChar = word)
      (hsize : Limits.nameBytes < Text.byteLength word) :
      CodeFault pos c cs (.identifierTooLong (Text.byteLength word))
  | longQuoted {n : Nat} (hc : c = '\'' ∨ c = '"') (hn : quotedLength? (c :: cs) = some n)
      (hsize : Limits.stringBytes < Text.byteLength ((c :: cs).take n)) :
      CodeFault pos c cs (.stringTooLarge (Text.byteLength ((c :: cs).take n)))
  | longHeredoc {n k : Nat} {label : List Char}
      (hheader : heredocHeader? (c :: cs) = some (k, label))
      (hn : (heredocBodyLength? label ((c :: cs).drop k)).map (k + ·) = some n)
      (hsize : Limits.stringBytes < Text.byteLength ((c :: cs).take n)) :
      CodeFault pos c cs (.stringTooLarge (Text.byteLength ((c :: cs).take n)))

theorem CodeFault.of_rule [Limits] {pos : Position} {nameExpected : Bool} {c : Char}
    {cs : List Char} {e : LexError} (hrule : CodeRule pos nameExpected c cs (.error e)) :
    CodeFault pos c cs e := by
  generalize hresult : Except.error e = result at hrule
  cases hrule with
  | closeTag _ _ | blanks _ | separator _ | number _ => cases hresult
  | hashComment hc =>
      obtain ⟨hsize, rfl⟩ := cutComment_eq_error_iff.1 hresult.symm
      exact .longLineComment (.hash hc) rfl hsize
  | slashComment hc hcs =>
      obtain ⟨hsize, rfl⟩ := cutComment_eq_error_iff.1 hresult.symm
      exact .longLineComment (.slashes hc hcs) rfl hsize
  | blockComment hc hcs =>
      rcases cutBlockComment_eq_error_iff.1 hresult.symm with ⟨hn, rfl⟩ | ⟨n, hn, hsize, rfl⟩
      · exact .openComment hc hcs hn
      · exact .longBlockComment hc hcs hn hsize
  | variableName hc hcs =>
      obtain ⟨hsize, rfl⟩ := cutVariable_eq_error_iff.1 hresult.symm
      exact .longVariable hc hcs rfl hsize
  | word hc =>
      obtain ⟨hsize, rfl⟩ := cutWord_eq_error_iff.1 hresult.symm
      exact .longWord hc rfl hsize
  | quoted hc =>
      rcases cutString_eq_error_iff.1 hresult.symm with ⟨hn, rfl⟩ | ⟨n, hn, hsize, rfl⟩
      · exact .openQuoted hc hn
      · exact .longQuoted hc hn hsize
  | heredoc hheader =>
      rcases cutString_eq_error_iff.1 hresult.symm with ⟨hn, rfl⟩ | ⟨n, hn, hsize, rfl⟩
      · exact .openHeredoc hheader (Option.map_eq_none_iff.1 hn)
      · exact .longHeredoc hheader hn hsize
  | mark hmark =>
      obtain ⟨-, hc, rfl⟩ := cutMark_eq_error_iff.1 hresult.symm
      exact .control (isControl_of_isMark hmark hc)

theorem CodeFault.eq [Limits] {pos : Position} {c : Char} {cs : List Char} {e : LexError}
    (h : CodeFault pos c cs e) (nameExpected : Bool) :
    cutCode pos nameExpected c cs = .error e := by
  cases h with
  | control hc =>
      rw [CodeRule.eq (.mark (hc.isMark cs))]
      exact cutMark_eq_error_iff.2 ⟨hc.leading?_eq_none cs, hc.isPunctuation_eq_false, rfl⟩
  | openComment hc hcs hn =>
      rw [CodeRule.eq (.blockComment hc hcs)]
      exact cutBlockComment_eq_error_iff.2 (.inl ⟨hn, rfl⟩)
  | openQuoted hc hn =>
      rw [CodeRule.eq (.quoted hc)]
      exact cutString_eq_error_iff.2 (.inl ⟨hn, rfl⟩)
  | openHeredoc hheader hn =>
      rw [CodeRule.eq (.heredoc hheader)]
      exact cutString_eq_error_iff.2 (.inl ⟨Option.map_eq_none_iff.2 hn, rfl⟩)
  | longLineComment hmark hn hsize =>
      subst hn
      cases hmark with
      | hash hc =>
          rw [CodeRule.eq (.hashComment hc)]
          exact cutComment_eq_error_iff.2 ⟨hsize, rfl⟩
      | slashes hc hcs =>
          rw [CodeRule.eq (.slashComment hc hcs)]
          exact cutComment_eq_error_iff.2 ⟨hsize, rfl⟩
  | longBlockComment hc hcs hn hsize =>
      rw [CodeRule.eq (.blockComment hc hcs)]
      exact cutBlockComment_eq_error_iff.2 (.inr ⟨_, hn, hsize, rfl⟩)
  | longVariable hc hcs hname hsize =>
      subst hname
      rw [CodeRule.eq (.variableName hc hcs)]
      exact cutVariable_eq_error_iff.2 ⟨hsize, rfl⟩
  | longWord hc hword hsize =>
      subst hword
      rw [CodeRule.eq (.word hc)]
      exact cutWord_eq_error_iff.2 ⟨hsize, rfl⟩
  | longQuoted hc hn hsize =>
      rw [CodeRule.eq (.quoted hc)]
      exact cutString_eq_error_iff.2 (.inr ⟨_, hn, hsize, rfl⟩)
  | longHeredoc hheader hn hsize =>
      rw [CodeRule.eq (.heredoc hheader)]
      exact cutString_eq_error_iff.2 (.inr ⟨_, hn, hsize, rfl⟩)

/-- A cut fails for one of the reasons listed, and the flag has no part in it. -/
theorem cutCode_eq_error_iff [Limits] {pos : Position} {nameExpected : Bool} {c : Char}
    {cs : List Char} {e : LexError} :
    cutCode pos nameExpected c cs = .error e ↔ CodeFault pos c cs e := by
  constructor
  · intro h
    have hrule := cutCode_rule pos nameExpected c cs
    rw [h] at hrule
    exact .of_rule hrule
  · intro h
    exact h.eq nameExpected

end PhpTokens.Lexer
