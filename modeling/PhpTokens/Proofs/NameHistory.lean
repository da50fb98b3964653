import PhpTokens.Proofs.CodeRule
import PhpTokens.Proofs.Reads
import PhpTokens.Proofs.Tag

/-!
# Where a reserved word is a name

The scanner decides between a reserved word and a name with a single flag, and
every lexeme may set it, clear it or leave it alone. What the flag means can be
read off the lexemes themselves: look back from the word, over blanks, comments
and reference marks, at the first lexeme that is none of these. The word stands
in a name position if that lexeme announces a name.

`foldl_expectsName_iff` says that the flag is this condition, at every place of
every source. The rest is that the word rule alone makes words, and that it
asks the flag.
-/

namespace PhpTokens

namespace Lexeme

/-- What a look back from a word passes over: trivia and the reference mark. -/
def isPassed (l : Lexeme) : Bool := l.isTrivia || l == .bare "&"

/-- A lexeme that makes a name of the word after it. -/
def announcesName (l : Lexeme) : Bool :=
  [TokenType.operator .objectOperator, .operator .nullsafeObjectOperator, .operator .doubleColon,
    .keyword .kwFunction, .keyword .kwConst].any fun type => l.type? == some type

end Lexeme

namespace Lexer

open Scanner

/-- The last lexeme before index `k` that a look back does not pass over exists
and announces a name. -/
def NamePosition (ls : Array Lexeme) (k : Nat) : Prop :=
  ∃ j l, j < k ∧ ls[j]? = some l ∧ l.isPassed = false ∧
    (∀ m l', j < m → m < k → ls[m]? = some l' → l'.isPassed = true) ∧ l.announcesName = true

/-! ## The flag -/

theorem expectsName_eq (before : Bool) (l : Lexeme) :
    expectsName before l = if l.isPassed then before else l.announcesName := by
  obtain ⟨type?, text⟩ := l
  match type? with
  | none => by_cases h : text = "&" <;> simp [expectsName, Lexeme.isPassed, Lexeme.isTrivia,
      Lexeme.announcesName, Lexeme.bare, h]
  | some .whitespace | some .comment | some .docComment => rfl
  | some .openTag | some .openTagWithEcho | some .closeTag | some .inlineHtml
  | some .variableName | some .identifier | some .nsSeparator | some .stringLiteral
  | some .integerLiteral | some .floatLiteral => rfl
  | some (.operator o) => cases o <;> rfl
  | some (.keyword k) => cases k <;> rfl

theorem not_namePosition_zero (ls : Array Lexeme) : ¬ NamePosition ls 0 := by
  intro hposition
  obtain ⟨j, l, hj, -⟩ := hposition
  exact absurd hj (Nat.not_lt_zero j)

/-- One more lexeme either is passed over or decides alone. -/
theorem namePosition_succ_iff {ls : Array Lexeme} {k : Nat} {l : Lexeme} (hl : ls[k]? = some l) :
    NamePosition ls (k + 1) ↔
      if l.isPassed then NamePosition ls k else l.announcesName = true := by
  split <;> rename_i hpassed
  · -- A lexeme that is passed over neither ends the look back nor is found by it.
    constructor
    · intro hposition
      obtain ⟨j, x, hj, hx, hstop, hbetween, hname⟩ := hposition
      have hne : j ≠ k := by
        intro hjk
        subst hjk
        cases hx.symm.trans hl
        exact absurd (hpassed.symm.trans hstop) (by simp)
      refine ⟨j, x, by omega, hx, hstop, ?_, hname⟩
      intro m y hjm hmk hy
      exact hbetween m y hjm (by omega) hy
    · intro hposition
      obtain ⟨j, x, hj, hx, hstop, hbetween, hname⟩ := hposition
      refine ⟨j, x, by omega, hx, hstop, ?_, hname⟩
      intro m y hjm hmk hy
      rcases Nat.lt_or_eq_of_le (Nat.le_of_lt_succ hmk) with hlt | rfl
      · exact hbetween m y hjm hlt hy
      · cases hy.symm.trans hl
        exact hpassed
  · constructor
    · intro hposition
      obtain ⟨j, x, hj, hx, hstop, hbetween, hname⟩ := hposition
      rcases Nat.lt_or_eq_of_le (Nat.le_of_lt_succ hj) with hlt | rfl
      · exact absurd (hbetween k l hlt (by omega) hl) hpassed
      · cases hx.symm.trans hl
        exact hname
    · intro hname
      refine ⟨k, l, by omega, hl, eq_false_of_ne_true hpassed, ?_, hname⟩
      intro m y hkm hmk _
      exact absurd hkm (by omega)

/-- After `k` lexemes the flag is set just in a name position. -/
theorem foldl_expectsName_iff (ls : Array Lexeme) {k : Nat} (hk : k ≤ ls.size) :
    (ls.toList.take k).foldl expectsName false = true ↔ NamePosition ls k := by
  induction k with
  | zero =>
      rw [List.take_zero, List.foldl_nil]
      simp only [Bool.false_eq_true, false_iff]
      exact not_namePosition_zero ls
  | succ k ih =>
      have hlt : k < ls.toList.length := by
        rw [Array.length_toList]
        omega
      have hl : ls[k]? = some ls.toList[k] := by
        rw [← Array.getElem?_toList, List.getElem?_eq_getElem hlt]
      rw [namePosition_succ_iff hl, List.take_succ_eq_append_getElem hlt, List.foldl_append,
        List.foldl_cons, List.foldl_nil, expectsName_eq]
      split
      · exact ih (by omega)
      · rfl

theorem Scanner.Reads.nameExpected_eq [Limits] {s s' : Scanner} {ls : List Lexeme}
    (h : Reads s ls s') :
    s'.nameExpected = ls.foldl expectsName s.nameExpected := by
  induction h with
  | done s => rfl
  | more _ _ _ ih =>
      rw [ih, List.foldl_cons]
      rfl

/-! ## The word rule -/

/-- The types of words. -/
def IsWordType (type? : Option TokenType) : Prop :=
  type? = some .identifier ∨ ∃ k, type? = some (.keyword k)

theorem not_isWordType {type? : Option TokenType} (hname : type? ≠ some .identifier)
    (hkeyword : ∀ k, type? ≠ some (.keyword k)) : ¬ IsWordType type? := by
  intro hword
  rcases hword with h | ⟨k, h⟩
  · exact hname h
  · exact hkeyword k h

/-- A word is read by the word rule, which asks the flag. -/
theorem CodeCut.type_eq_wordType [Limits] {nameExpected : Bool} {c : Char} {cs : List Char}
    {cut : Cut} (h : CodeCut nameExpected c cs cut) (htype : IsWordType cut.type?) :
    cut.type? = some (wordType nameExpected ((c :: cs).take cut.length)) := by
  have htake : (c :: cs).take ((c :: cs).takeWhile isNameChar).length =
      (c :: cs).takeWhile isNameChar :=
    (List.prefix_iff_eq_take.1 (List.takeWhile_prefix isNameChar)).symm
  cases h with
  | keyword _ hword hk hname _ =>
      subst hword hname
      rw [htake]
      simp [wordType, hk]
  | identifier _ hword hname _ =>
      subst hword
      rw [htake]
      rcases hname with hk | rfl
      · simp [wordType, hk]
      · unfold wordType
        split <;> rfl
  | _ => exact absurd htype (not_isWordType (by simp) (by simp))

theorem cutTemplate_not_isWordType (cs : List Char) : ¬ IsWordType (cutTemplate cs).type? := by
  rcases cutTemplate_type cs with h | h | h <;> rw [h]
  · exact not_isWordType (by simp) (by simp)
  · exact not_isWordType (by simp) (by simp)
  · exact not_isWordType (by simp) (by simp)

theorem Scanner.next_type_eq_wordType [Limits] {s : Scanner} {c : Char} {cs : List Char} {cut : Cut}
    (h : s.next c cs = .ok cut) (hword : IsWordType cut.type?) :
    cut.type? = some (wordType s.nameExpected ((c :: cs).take cut.length)) := by
  have hcut := (next_eq_ok_iff.1 h).1
  unfold Scanner.cut at hcut
  split at hcut
  · exact (cutCode_eq_ok_iff.1 hcut).type_eq_wordType hword
  · cases hcut
    exact absurd hword (cutTemplate_not_isWordType (c :: cs))

theorem wordType_eq_keyword_iff {nameExpected : Bool} {word : String} {k : Keyword} :
    wordType nameExpected word.toList = .keyword k ↔
      Keyword.ofWord? word = some k ∧ nameExpected = false := by
  unfold wordType
  rw [String.ofList_toList]
  split
  · next k' hk' => cases nameExpected <;> simp [hk']
  · next hnone => simp [hnone]

/-- A word of a source is a reserved word just if it spells one and does not
stand in a name position. Any other word is a name. -/
theorem tokenize_keyword_iff_history [Limits] {lexer : Lexer} {source : String} {ls : Array Lexeme}
    (h : (lexer.tokenize source).2.value = .ok ls) {k : Nat} {l : Lexeme} (hl : ls[k]? = some l)
    (hword : l.type? = some .identifier ∨ ∃ w, l.type? = some (.keyword w)) :
    (∀ w, l.type? = some (.keyword w) ↔ Keyword.ofWord? l.text = some w ∧ ¬ NamePosition ls k) ∧
      ((∀ w, ¬ (Keyword.ofWord? l.text = some w ∧ ¬ NamePosition ls k)) →
        l.type? = some .identifier) := by
  obtain ⟨s, hreads, -⟩ := tokenize_eq_ok_iff.1 h
  obtain ⟨t, c, cs, cut, hbefore, hrest, hnext, rfl⟩ := hreads.exists_next hl
  have hflag : t.nameExpected = false ↔ ¬ NamePosition ls k := by
    have hk : k ≤ ls.size := Nat.le_of_lt (Array.getElem?_eq_some_iff.1 hl).1
    rw [← foldl_expectsName_iff ls hk, hbefore.nameExpected_eq, Bool.not_eq_true]
    rfl
  have htype := next_type_eq_wordType hnext hword
  have hkeyword : ∀ w, (t.lexeme cut).type? = some (.keyword w) ↔
      Keyword.ofWord? (t.lexeme cut).text = some w ∧ ¬ NamePosition ls k := by
    intro w
    rw [← hflag, ← wordType_eq_keyword_iff, lexeme_type?, htype, Option.some.injEq, lexeme_text,
      String.toList_ofList, hrest]
  refine ⟨hkeyword, ?_⟩
  intro hother
  rcases hword with hname | ⟨w, hw⟩
  · exact hname
  · exact absurd ((hkeyword w).1 hw) (hother w)

/-- After a member operator and a comment a reserved word is a name; the same
word right after that name is reserved. -/
theorem tokenize_keyword_iff_history_after_comment :
    NamePosition #[.typed .openTag "<?php ", .typed (.operator .objectOperator) "->",
        .typed .comment "/**/", .typed .identifier "class", .typed .whitespace " ",
        .typed (.keyword .kwClass) "class"] 3 ∧
      ¬ NamePosition #[.typed .openTag "<?php ", .typed (.operator .objectOperator) "->",
        .typed .comment "/**/", .typed .identifier "class", .typed .whitespace " ",
        .typed (.keyword .kwClass) "class"] 5 := by
  have hlex : (Lexer.tokenize {} "<?php ->/**/class class").2.value =
      .ok #[.typed .openTag "<?php ", .typed (.operator .objectOperator) "->",
        .typed .comment "/**/", .typed .identifier "class", .typed .whitespace " ",
        .typed (.keyword .kwClass) "class"] := tokenize_eq_ok_of_readAll? 7 (by decide)
  have hname := tokenize_keyword_iff_history hlex (k := 3) rfl (.inl rfl)
  have hreserved := tokenize_keyword_iff_history hlex (k := 5) rfl (.inr ⟨.kwClass, rfl⟩)
  constructor
  · refine Classical.byContradiction fun hposition => ?_
    have hclass : Keyword.ofWord? "class" = some .kwClass := by decide
    exact absurd ((hname.1 .kwClass).2 ⟨hclass, hposition⟩) (by decide)
  · exact ((hreserved.1 .kwClass).1 rfl).2

end Lexer

end PhpTokens
