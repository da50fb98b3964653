import PhpTokens.Proofs.Extent
import PhpTokens.Proofs.Lookahead

/-!
# Trivia do not matter

A source in which every blank and every comment is replaced by one space has
the same significant lexemes. `tokenize_blanked_significant` says so of every
source that is cut and in which no `<<` stands directly before a `<`. Those two
are left out because three `<` in a row may open a heredoc, and whether they do
depends on the line behind them as far as its break, trivia included.

Two scanners are run side by side. The one on the blanked text falls behind
while the other reads trivia, since spaces in a row are one lexeme, and catches
up before the next significant lexeme. `Follows` is what they keep between them,
with the number of spaces that are owed. One step of the first scanner keeps it
(`Follows.trivia`, `Follows.significant`), so a whole run does (`Reads.follow`).
-/

namespace PhpTokens

/-- The text of a lexeme, with a space for trivia. -/
def Lexeme.blanked (l : Lexeme) : String := if l.isTrivia then " " else l.text

namespace Lexer

open Scanner

/-- The lexemes that are not trivia. -/
def significant (ls : List Lexeme) : List Lexeme := ls.filter fun l => !l.isTrivia

/-- The text of some lexemes, end to end, with a space for each piece of trivia. -/
def blankedText (ls : List Lexeme) : List Char := ls.flatMap fun l => l.blanked.toList

/-- No operator `<<` stands directly before a lexeme that begins with `<`. -/
def ShiftsApart (ls : List Lexeme) : Prop :=
  ∀ p ∈ ls.zip ls.tail, p.1.type? = some (.operator .shiftLeft) →
    p.2.text.toList.head? ≠ some '<'

theorem significant_cons_of_isTrivia {l : Lexeme} (h : l.isTrivia = true) (ls : List Lexeme) :
    significant (l :: ls) = significant ls := by
  simp [significant, h]

theorem significant_cons {l : Lexeme} (h : l.isTrivia = false) (ls : List Lexeme) :
    significant (l :: ls) = l :: significant ls := by
  simp [significant, h]

theorem significant_append (xs ys : List Lexeme) :
    significant (xs ++ ys) = significant xs ++ significant ys := List.filter_append xs ys

theorem blankedText_cons_of_isTrivia {l : Lexeme} (h : l.isTrivia = true) (ls : List Lexeme) :
    blankedText (l :: ls) = ' ' :: blankedText ls := by
  rw [blankedText, List.flatMap_cons, Lexeme.blanked, if_pos h]
  rfl

theorem blankedText_cons {l : Lexeme} (h : l.isTrivia = false) (ls : List Lexeme) :
    blankedText (l :: ls) = l.text.toList ++ blankedText ls := by
  rw [blankedText, List.flatMap_cons, Lexeme.blanked, if_neg (by simp [h])]
  rfl

theorem toList_join_blanked (ls : List Lexeme) :
    (String.join (ls.map Lexeme.blanked)).toList = blankedText ls := by
  rw [String.toList_join, List.flatMap_map]
  rfl

theorem ShiftsApart.tail {l : Lexeme} {ls : List Lexeme} (h : ShiftsApart (l :: ls)) :
    ShiftsApart ls := by
  match ls with
  | [] =>
      intro p hp
      cases hp
  | b :: ls =>
      intro p hp
      exact h p (List.mem_cons_of_mem (l, b) hp)

/-! ## Single cuts -/

namespace Scanner

theorem entersCode_of_isTrivia {type? : Option TokenType}
    (h : type?.any TokenType.isTrivia = true) (before : Bool) :
    entersCode before type? = before := by
  rcases TokenType.any_isTrivia_iff.1 h with rfl | rfl | rfl <;> rfl

theorem expectsName_of_isTrivia {l : Lexeme} (h : l.isTrivia = true) (before : Bool) :
    expectsName before l = before := by
  obtain ⟨type?, text⟩ := l
  rcases TokenType.any_isTrivia_iff.1 h with rfl | rfl | rfl <;> rfl

/-- Trivia are cut in code only, where a character that opens trivia stands. -/
theorem inCode_of_isTrivia [Limits] {s : Scanner} {c : Char} {cs : List Char} {cut : Cut}
    (h : s.next c cs = .ok cut) (htrivia : cut.type?.any TokenType.isTrivia = true) :
    s.inCode = true ∧ opensTrivia c = true := by
  rcases next_cases h with ⟨hcode, hcut⟩ | ⟨-, rfl⟩
  · exact ⟨hcode, hcut.opensTrivia htrivia⟩
  · rcases cutTemplate_type (c :: cs) with htype | htype | htype <;> rw [htype] at htrivia <;>
      cases htrivia

theorem isBlank_eq_false [Limits] {s : Scanner} {c : Char} {cs : List Char} {cut : Cut}
    (hcode : s.inCode = true) (h : s.next c cs = .ok cut)
    (htrivia : cut.type?.any TokenType.isTrivia = false) : isBlank c = false := by
  refine eq_false_of_ne_true fun hc => ?_
  have hcut := (next_eq_ok_iff.1 h).1
  rw [Scanner.cut, if_pos hcode, CodeRule.eq (.blanks hc)] at hcut
  cases hcut
  cases htrivia

end Scanner

theorem Scanner.Reads.blanked [Limits] {s s' : Scanner} {ls : List Lexeme} (h : Reads s ls s') :
    Blanked (textOf ls) (blankedText ls) := by
  induction h with
  | done _ => exact .nil
  | @more s s' c cs cut ls hrest hnext _ ih =>
      cases htrivia : (s.lexeme cut).isTrivia with
      | true =>
          obtain ⟨t, ht, -⟩ := exists_rest_eq hrest hnext
          rw [textOf_cons, blankedText_cons_of_isTrivia htrivia, ht, String.toList_ofList]
          exact .trivia (inCode_of_isTrivia hnext htrivia).2 _ _
      | false =>
          rw [textOf_cons, blankedText_cons htrivia]
          exact ih.append _

/-! ## Side by side -/

/-- The scanner `s'` has the blanked text of `ls` ahead where `s` has the lexemes
`ls`, after `k` spaces for trivia that `s` has read already. -/
structure Follows [Limits] (s s' : Scanner) (ls : List Lexeme) (k : Nat) : Prop where
  rest_eq : s'.rest = List.replicate k ' ' ++ blankedText ls
  inCode_eq : s'.inCode = s.inCode
  nameExpected_eq : s'.nameExpected = s.nameExpected
  inCode_of_pos : 0 < k → s.inCode = true
  -- A lexeme is owed while spaces are, so the limit on lexemes is met again.
  size_le : s'.lexemes.size + min k 1 ≤ s.lexemes.size
  size_le_limit : s.lexemes.size ≤ Limits.tokens

namespace Follows

theorem trivia [Limits] {s s' : Scanner} {c : Char} {cs : List Char} {cut : Cut} {ls : List Lexeme}
    {k : Nat} (h : Follows s s' (s.lexeme cut :: ls) k) (hnext : s.next c cs = .ok cut)
    (htrivia : (s.lexeme cut).isTrivia = true) : Follows (s.take cut) s' ls (k + 1) := by
  have hcode := (inCode_of_isTrivia hnext htrivia).1
  have hmode : (s.take cut).inCode = s.inCode := entersCode_of_isTrivia htrivia s.inCode
  have hroom := (next_eq_ok_iff.1 hnext).2
  have hsize := h.size_le
  constructor
  · rw [h.rest_eq, blankedText_cons_of_isTrivia htrivia, List.replicate_succ', List.append_assoc]
    rfl
  · rw [hmode, h.inCode_eq]
  · rw [take_nameExpected, expectsName_of_isTrivia htrivia, h.nameExpected_eq]
  · intro _
    rw [hmode, hcode]
  · rw [take_lexemes, Array.size_push]
    omega
  · rw [take_lexemes, Array.size_push]
    omega

/-- The spaces that are owed are read as one lexeme. -/
theorem catch_up [Limits] {s s' : Scanner} {ls : List Lexeme} {k : Nat} (h : Follows s s' ls k)
    (hstop : 0 < k → (blankedText ls).head?.any isBlank = false) :
    ∃ blanks s'', Reads s' blanks s'' ∧ significant blanks = [] ∧ Follows s s'' ls 0 := by
  match k with
  | 0 => exact ⟨[], s', .done s', rfl, h⟩
  | k + 1 =>
      have hcode := h.inCode_of_pos (Nat.succ_pos k)
      have hsize := h.size_le
      have hlimit := h.size_le_limit
      have hrest : s'.rest = ' ' :: (List.replicate k ' ' ++ blankedText ls) := by
        rw [h.rest_eq, List.replicate_succ, List.cons_append]
      have hrun : runLength isBlank s'.rest = k + 1 := by
        rw [h.rest_eq, runLength, takeWhile_append_stop ?_ (hstop (Nat.succ_pos k)),
          List.length_replicate]
        intro c hc
        rw [List.eq_of_mem_replicate hc]
        rfl
      have hnext : s'.next ' ' (List.replicate k ' ' ++ blankedText ls) =
          .ok ⟨some .whitespace, k + 1⟩ := by
        refine next_eq_ok_iff.2 ⟨?_, by omega⟩
        rw [Scanner.cut, if_pos (h.inCode_eq.trans hcode), CodeRule.eq (.blanks rfl), ← hrest, hrun]
      refine ⟨[s'.lexeme ⟨some .whitespace, k + 1⟩], s'.take ⟨some .whitespace, k + 1⟩,
        .more hrest hnext (.done _), rfl, ?_⟩
      constructor
      · rw [take_rest, h.rest_eq]
        exact List.drop_left' List.length_replicate
      · exact h.inCode_eq
      · exact h.nameExpected_eq
      · intro hpos
        cases hpos
      · rw [take_lexemes, Array.size_push]
        omega
      · exact hlimit

/-- With no space owed, a significant lexeme is cut from both texts. -/
theorem significant [Limits] {s s' : Scanner} {c : Char} {cs : List Char} {cut : Cut}
    {ls : List Lexeme} (h : Follows s s' (s.lexeme cut :: ls) 0) (hrest : s.rest = c :: cs)
    (hnext : s.next c cs = .ok cut) (htrivia : (s.lexeme cut).isTrivia = false)
    (hafter : (s.take cut).rest = textOf ls) (hblanked : Blanked (textOf ls) (blankedText ls))
    (hshift : cut.type? = some (.operator .shiftLeft) → (textOf ls).head? ≠ some '<') :
    ∃ cs', s'.rest = c :: cs' ∧ s'.next c cs' = .ok cut ∧ s'.lexeme cut = s.lexeme cut ∧
      Follows (s.take cut) (s'.take cut) ls 0 := by
  obtain ⟨t, ht, hcs, hlength⟩ := exists_rest_eq hrest hnext
  obtain ⟨hcut, hroom⟩ := next_eq_ok_iff.1 hnext
  have hsize := h.size_le
  rw [hafter] at hcs
  have hrest' : s'.rest = (c :: t) ++ blankedText ls := by
    rw [h.rest_eq, blankedText_cons htrivia, ht, String.toList_ofList]
    rfl
  have hcut' : s'.cut c (t ++ blankedText ls) = .ok cut := by
    rw [hcs] at hcut
    exact hblanked.cut_eq h.inCode_eq h.nameExpected_eq hcut hlength htrivia hshift
  obtain ⟨hlexeme', htail⟩ := lexeme_eq_of_rest cut hrest' hlength
  have hlexeme : s'.lexeme cut = s.lexeme cut := hlexeme'.trans ht.symm
  refine ⟨t ++ blankedText ls, hrest', next_eq_ok_iff.2 ⟨hcut', by omega⟩, hlexeme, ?_⟩
  constructor
  · exact htail
  · rw [take_inCode, take_inCode, h.inCode_eq]
  · rw [take_nameExpected, take_nameExpected, hlexeme, h.nameExpected_eq]
  · intro hpos
    cases hpos
  · rw [take_lexemes, take_lexemes, Array.size_push, Array.size_push]
    omega
  · rw [take_lexemes, Array.size_push]
    omega

end Follows

theorem ShiftsApart.head?_ne {l : Lexeme} {ls : List Lexeme} (h : ShiftsApart (l :: ls))
    (hls : ∀ b ∈ ls, b.text ≠ "") (hl : l.type? = some (.operator .shiftLeft)) :
    (textOf ls).head? ≠ some '<' := by
  match ls with
  | [] => simp
  | b :: ls =>
      have hb : b.text.toList ≠ [] := by simpa using hls b List.mem_cons_self
      have hhead : b.text.toList.head? ≠ some '<' := h (l, b) List.mem_cons_self hl
      rw [List.head?_eq_some_head hb] at hhead
      rw [textOf_cons, List.head?_append, List.head?_eq_some_head hb]
      exact hhead

/-- A scanner that follows reads the same significant lexemes to the end. -/
theorem Scanner.Reads.follow [Limits] {s t s' : Scanner} {ls : List Lexeme} {k : Nat}
    (hreads : Reads s ls t) (hend : t.rest = []) (happart : ShiftsApart ls)
    (h : Follows s s' ls k) :
    ∃ ls' t', Reads s' ls' t' ∧ t'.rest = [] ∧ significant ls' = significant ls := by
  -- The second scanner and its debt vary: trivia leave it where it is.
  induction hreads generalizing s' k with
  | done s =>
      obtain ⟨blanks, s'', hblanks, hnone, hlast⟩ := h.catch_up fun _ => rfl
      exact ⟨blanks, s'', hblanks, hlast.rest_eq, hnone⟩
  | @more s t c cs cut ls hrest hnext hreads ih =>
      cases htrivia : (s.lexeme cut).isTrivia with
      | true =>
          rw [significant_cons_of_isTrivia htrivia]
          exact ih hend happart.tail (h.trivia hnext htrivia)
      | false =>
          have hafter : (s.take cut).rest = textOf ls := by
            rw [hreads.rest_eq, hend, List.append_nil]
          have hstop : 0 < k → (blankedText (s.lexeme cut :: ls)).head?.any isBlank = false := by
            intro hpos
            obtain ⟨text, ht, -⟩ := exists_rest_eq hrest hnext
            rw [blankedText_cons htrivia, ht, String.toList_ofList]
            exact isBlank_eq_false (h.inCode_of_pos hpos) hnext htrivia
          obtain ⟨blanks, s'', hblanks, hnone, hfollows⟩ := h.catch_up hstop
          obtain ⟨cs', hrest', hnext', hlexeme, hfollows'⟩ :=
            hfollows.significant hrest hnext htrivia hafter hreads.blanked
              (happart.head?_ne hreads.text_ne_empty)
          obtain ⟨ls', t', hreads', hend', hls'⟩ := ih hend happart.tail hfollows'
          refine ⟨blanks ++ s''.lexeme cut :: ls', t',
            hblanks.append (.more hrest' hnext' hreads'), hend', ?_⟩
          rw [significant_append, hnone, hlexeme, significant_cons htrivia,
            significant_cons htrivia, hls']
          rfl

end Lexer

end PhpTokens
