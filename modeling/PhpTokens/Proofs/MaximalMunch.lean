import PhpTokens.Proofs.Alone

/-!
# No lexeme could have been longer

Whoever writes lexemes out again, one behind the other, relies on this: where a
lexeme ends, the source does not go on with more of the same. `Munched l r` says
it of a lexeme and the text behind it, type by type. For blanks and names it is
a matter of the next character. An operator, and a mark that is none, is the
longest spelling in a table (`IsLongest`). And a bare mark that could begin
something else, a variable, a number, a comment or a tag, is not followed by
what would have made it that; these are the guards of the rules that come before
the last one (`IsMark`).

Each fact is one about a single cut. A run cuts every lexeme from the front of
what is left of the source, so they hold of all its lexemes
(`tokenize_maximalMunch`).
-/

namespace PhpTokens.Lexer

open Scanner

/-- Where `r` follows the lexeme, the lexeme ends as late as it can. -/
structure Munched (l : Lexeme) (r : List Char) : Prop where
  blanks : l.type? = some .whitespace → r.head?.any isBlank = false
  name : (l.type? = some .variableName ∨ l.type? = some .identifier ∨
    ∃ k, l.type? = some (.keyword k)) → r.head?.any isNameChar = false
  symbol : (l.type? = none ∨ ∃ o, l.type? = some (.operator o)) →
    ∀ x, Operator.IsSymbol x → x <+: l.text.toList ++ r → x.length ≤ l.text.toList.length
  dollar : l = .bare "$" → r.head?.any isNameStart = false
  point : l = .bare "." → r.head?.any Char.isDigit = false
  slash : l = .bare "/" → r.head? ≠ some '/' ∧ r.head? ≠ some '*'
  question : l = .bare "?" → r.head? ≠ some '>'

/-! ## One cut -/

namespace CodeCut

variable [Limits] {nameExpected : Bool} {c : Char} {t r : List Char} {cut : Cut}

theorem blanks_stop (h : CodeCut nameExpected c (t ++ r) cut)
    (hlength : cut.length = (c :: t).length) (htype : cut.type? = some .whitespace) :
    r.head?.any isBlank = false := by
  cases h with
  | blanks _ hn =>
      rw [← hn] at hlength
      exact (takeWhile_length_eq_iff (t := c :: t)).1 hlength |>.2
  | _ => cases htype

theorem name_stop (h : CodeCut nameExpected c (t ++ r) cut)
    (hlength : cut.length = (c :: t).length)
    (htype : cut.type? = some .variableName ∨ cut.type? = some .identifier ∨
      ∃ k, cut.type? = some (.keyword k)) : r.head?.any isNameChar = false := by
  cases h with
  | variableName _ _ hname _ =>
      rw [← hname] at hlength
      refine (takeWhile_length_eq_iff (t := t)).1 ?_ |>.2
      simp only [List.length_cons] at hlength
      omega
  | keyword _ hword _ _ _ =>
      rw [← hword] at hlength
      exact (takeWhile_length_eq_iff (t := c :: t)).1 hlength |>.2
  | identifier _ hword _ _ =>
      rw [← hword] at hlength
      exact (takeWhile_length_eq_iff (t := c :: t)).1 hlength |>.2
  | _ => simp at htype

theorem symbol_length_le (h : CodeCut nameExpected c (t ++ r) cut)
    (hlength : cut.length = (c :: t).length)
    (htype : cut.type? = none ∨ ∃ o, cut.type? = some (.operator o)) {x : List Char}
    (hsymbol : Operator.IsSymbol x) (hx : x <+: c :: (t ++ r)) : x.length ≤ (c :: t).length := by
  cases h with
  | operator _ ho =>
      obtain ⟨u, rfl, -, hlongest⟩ := Operator.leading?_eq_some_iff.1 ho
      rw [← hlength]
      exact hlongest.length_le x hx hsymbol
  | bare _ ho _ => exact absurd hsymbol (Operator.leading?_eq_none_iff.1 ho x hx)
  | _ => simp at htype

theorem isMark_of_bare (h : CodeCut nameExpected c (t ++ r) cut) (htype : cut.type? = none) :
    IsMark c (t ++ r) := by
  cases h with
  | bare hmark _ _ => exact hmark
  | _ => cases htype

theorem munched (h : CodeCut nameExpected c (t ++ r) cut)
    (hlength : cut.length = (c :: t).length) : Munched ⟨cut.type?, String.ofList (c :: t)⟩ r := by
  -- A bare mark is a text that only the last rule reads.
  have hbare : ∀ d, (⟨cut.type?, String.ofList (c :: t)⟩ : Lexeme) = .bare (String.ofList [d]) →
      IsMark d r := by
    intro d hd
    obtain ⟨htype, htext⟩ := Lexeme.mk.inj hd
    obtain ⟨rfl, rfl⟩ := List.cons.inj (String.ofList_inj.1 htext)
    exact h.isMark_of_bare htype
  constructor
  · exact h.blanks_stop hlength
  · exact h.name_stop hlength
  · intro htype x hsymbol hx
    rw [String.toList_ofList] at hx ⊢
    exact h.symbol_length_le hlength htype hsymbol hx
  · intro hl
    exact eq_false_of_ne_true fun hname => (hbare '$' hl).not_variable ⟨rfl, hname⟩
  · intro hl
    exact eq_false_of_ne_true fun hdigit => (hbare '.' hl).not_number (.inr ⟨rfl, hdigit⟩)
  · intro hl
    have hmark := (hbare '/' hl).not_comment
    exact ⟨fun hslash => hmark ⟨rfl, .inl hslash⟩, fun hstar => hmark ⟨rfl, .inr hstar⟩⟩
  · intro hl hclose
    exact (hbare '?' hl).not_close ⟨rfl, hclose⟩

end CodeCut

/-- Template text and open tags are no lexemes that this is about. -/
theorem munched_of_template {l : Lexeme} (h : l.type? = some .openTag ∨
    l.type? = some .openTagWithEcho ∨ l.type? = some .inlineHtml) (r : List Char) :
    Munched l r := by
  obtain ⟨type?, text⟩ := l
  constructor <;> rcases h with rfl | rfl | rfl <;> simp [Lexeme.bare]

namespace Scanner

theorem munched_lexeme [Limits] {s : Scanner} {c : Char} {cs : List Char} {cut : Cut}
    (hrest : s.rest = c :: cs) (hnext : s.next c cs = .ok cut) :
    Munched (s.lexeme cut) (s.take cut).rest := by
  rcases next_cases hnext with ⟨-, hcut⟩ | ⟨-, rfl⟩
  · obtain ⟨t, hlexeme, hcs, hlength⟩ := exists_rest_eq hrest hnext
    rw [hcs] at hcut
    rw [hlexeme]
    exact hcut.munched hlength
  · exact munched_of_template (cutTemplate_type (c :: cs)) _

theorem Reads.head?_any_isBlank [Limits] {s s' : Scanner} {l : Lexeme} {ls : List Lexeme}
    (h : Reads s (l :: ls) s') (htype : l.type? = some .whitespace) :
    s.rest.head?.any isBlank = true := by
  cases h with
  | @more _ _ c cs cut _ hrest hnext _ =>
      rw [lexeme_type?] at htype
      have hcut := next_codeCut hnext (by simp [htype]) (by simp [htype]) (by simp [htype])
      rw [hrest]
      cases hcut with
      | blanks hc _ => exact hc
      | _ => cases htype

end Scanner

/-! ## All cuts of a run -/

/-- In a source that is cut, no lexeme of code could have been longer than it is. In
particular no two runs of blanks stand side by side. -/
theorem tokenize_maximalMunch [Limits] (lexer : Lexer) {source : String} {ls : Array Lexeme}
    (h : (lexer.tokenize source).2.value = .ok ls) {k : Nat} {l : Lexeme}
    (hl : ls[k]? = some l) :
    source.toList =
        textOf (ls.toList.take k) ++ (l.text.toList ++ textOf (ls.toList.drop (k + 1))) ∧
      Munched l (textOf (ls.toList.drop (k + 1))) ∧
      (l.type? = some .whitespace → ∀ l', ls[k + 1]? = some l' → l'.type? ≠ some .whitespace) := by
  obtain ⟨s, hreads, hend⟩ := tokenize_eq_ok_iff.1 h
  obtain ⟨t, c, cs, cut, hbefore, hrest, hnext, rfl, hafter⟩ := hreads.exists_step hl
  have hbehind : textOf (ls.toList.drop (k + 1)) = (t.take cut).rest := by
    rw [hafter.rest_eq, hend, List.append_nil]
  have hmunched := munched_lexeme hrest hnext
  rw [hbehind]
  refine ⟨?_, hmunched, ?_⟩
  · rw [lexeme_text, String.toList_ofList, take_rest, List.take_append_drop]
    exact hbefore.rest_eq
  · intro htype l' hl' htype'
    have hhead : (ls.toList.drop (k + 1)).head? = some l' := by
      rw [List.head?_drop, Array.getElem?_toList]
      exact hl'
    obtain ⟨more, hmore⟩ := List.head?_eq_some_iff.1 hhead
    rw [hmore] at hafter
    have hblank := hafter.head?_any_isBlank htype'
    rw [hmunched.blanks htype] at hblank
    cases hblank

/-- Three question marks in a row, of which the first two are an operator and the third
begins another; and a point before a name. -/
theorem tokenize_maximalMunch_coalesce :
    (Lexer.tokenize {} "<?= ???->é.é").2.value =
        .ok #[.typed .openTagWithEcho "<?=", .typed .whitespace " ",
          .typed (.operator .coalesce) "??", .typed (.operator .nullsafeObjectOperator) "?->",
          .typed .identifier "é", .bare ".", .typed .identifier "é"] ∧
      Munched (.typed (.operator .coalesce) "??") "?->é.é".toList ∧
      Munched (.bare ".") "é".toList := by
  have hlex : (Lexer.tokenize {} "<?= ???->é.é").2.value =
      .ok #[.typed .openTagWithEcho "<?=", .typed .whitespace " ",
        .typed (.operator .coalesce) "??", .typed (.operator .nullsafeObjectOperator) "?->",
        .typed .identifier "é", .bare ".", .typed .identifier "é"] :=
    tokenize_eq_ok_of_readAll? 8 (by decide)
  exact ⟨hlex, (tokenize_maximalMunch {} (k := 2) hlex rfl).2.1,
    (tokenize_maximalMunch {} (k := 5) hlex rfl).2.1⟩

end PhpTokens.Lexer
