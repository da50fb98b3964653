import PhpTokens.Proofs.ByteNumber

/-!
# Tables in two directions

Reserved words and operators are looked up by their texts in one table and
spelled by another, and the two are written down apart. Entry by entry they can
be compared by evaluation. That they are inverse over all texts follows, since a
text without an entry spells nothing (`lookup_eq_some_iff_of_tables`). Either
kind has one second text that no spelling gives, `die` and `<>`.

An operator at the head of a text may be looked for in windows of so many bytes.
A window that ends inside a character holds nothing, and no entry is lost by
that, since the texts of the table are ASCII. They have from two to `maxLength`
bytes, so there is a window for each, and the first hit is the longest
(`spellings_inverse_and_longest`).
-/

namespace PhpTokens

theorem Keyword.ofWord?_eq_some_iff (word : String) (k : Keyword) :
    ofWord? word = some k ↔
      String.ofList (word.toList.map Char.toLower) = k.spelling ∨
        (k = .kwExit ∧ String.ofList (word.toList.map Char.toLower) = "die") :=
  lookup_eq_some_iff_of_tables mem_all words spelling ("die", .kwExit) (by decide +kernel)
    (by decide +kernel) (by decide) _ k

namespace Operator

open Lexer

theorem ofSymbol?_eq_some_iff (text : String) (o : Operator) :
    ofSymbol? text = some o ↔ text = o.symbol ∨ (o = .isNotEqual ∧ text = "<>") :=
  lookup_eq_some_iff_of_tables mem_all symbols symbol ("<>", .isNotEqual) (by decide +kernel)
    (by decide +kernel) (by decide) text o

theorem utf8ByteSize_mem_lengths {text : String} {o : Operator} (h : ofSymbol? text = some o) :
    text.utf8ByteSize ∈ lengths := by
  have hsymbol : IsSymbol text.toList := by
    refine ⟨o, ?_⟩
    rw [String.ofList_toList]
    exact h
  rw [Text.utf8ByteSize_eq_byteLength, byteLength_of_isSymbol hsymbol]
  exact hsymbol.length_mem

/-- The length that is found counts bytes as well as characters. -/
theorem leading?_eq_some_iff_byteLength {cs : List Char} {o : Operator} {n : Nat} :
    leading? cs = some (o, n) ↔
      ∃ t, n = Text.byteLength t ∧ ofSymbol? (String.ofList t) = some o ∧
        IsLongest IsSymbol t cs := by
  rw [leading?_eq_some_iff]
  refine exists_congr fun t => and_congr_left fun h => ?_
  rw [byteLength_of_isSymbol h.2.holds]

end Operator

/-- Looking up and spelling are inverse but for the two second texts, whatever the text.
Every text of an operator fits one of the windows, so the operator found at the head of
a text is the longest one there, and none is found just if none is there. -/
theorem spellings_inverse_and_longest :
    (∀ word k, Keyword.ofWord? word = some k ↔
      String.ofList (word.toList.map Char.toLower) = k.spelling ∨
        (k = .kwExit ∧ String.ofList (word.toList.map Char.toLower) = "die")) ∧
    (∀ text o, Operator.ofSymbol? text = some o ↔
      text = o.symbol ∨ (o = .isNotEqual ∧ text = "<>")) ∧
    (∀ text o, Operator.ofSymbol? text = some o →
      2 ≤ text.utf8ByteSize ∧ text.utf8ByteSize ≤ Operator.maxLength) ∧
    (∀ cs, Lexer.operatorBytes? cs = Operator.leading? cs) ∧
    (∀ cs o n, Operator.leading? cs = some (o, n) ↔
      ∃ t, n = Text.byteLength t ∧ Operator.ofSymbol? (String.ofList t) = some o ∧
        Lexer.IsLongest Operator.IsSymbol t cs) ∧
    (∀ cs, Operator.leading? cs = none ↔ ∀ t, t <+: cs → ¬ Operator.IsSymbol t) := by
  refine ⟨Keyword.ofWord?_eq_some_iff, Operator.ofSymbol?_eq_some_iff, ?_,
    Lexer.operatorBytes?_eq, ?_, ?_⟩
  · intro text o h
    exact Operator.mem_lengths.1 (Operator.utf8ByteSize_mem_lengths h)
  · intro cs o n
    exact Operator.leading?_eq_some_iff_byteLength
  · intro cs
    exact Operator.leading?_eq_none_iff

/-- The two second texts, the first in capitals; a word that ends with the Kelvin sign,
whose lower case in Unicode but not in ASCII is `k`; and an operator that the widest
window misses because it ends inside a character. -/
theorem spellings_inverse_and_longest_second_texts :
    Keyword.ofWord? "DIE" = some .kwExit ∧
      Keyword.ofWord? "BREA\u212a" ≠ some .kwBreak ∧
      (2 ≤ "<>".utf8ByteSize ∧ "<>".utf8ByteSize ≤ Operator.maxLength) ∧
      Lexer.operatorBytes? ['<', '<', 'é'] = some (.shiftLeft, 2) := by
  obtain ⟨hword, hsymbol, hsize, hbytes, -⟩ := spellings_inverse_and_longest
  refine ⟨(hword _ _).2 (.inr ⟨rfl, by decide⟩), ?_, hsize "<>" .isNotEqual ?_, ?_⟩
  · intro h
    exact absurd ((hword _ _).1 h) (by decide)
  · exact (hsymbol _ _).2 (.inr ⟨rfl, rfl⟩)
  · rw [hbytes]
    decide

end PhpTokens
