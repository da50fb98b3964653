import PhpTokens.Proofs.Boundary
import PhpTokens.Proofs.Extent

/-!
# The text of a lexeme says what it is

A lexeme of code is cut from its own text alone as it was from the source. What
followed it there has no part in it, since nothing asks less of a lexeme than
the end of the text (`endsAlike_nil`); what came before has a part only through
the flag that turns a reserved word into a name. So an open tag and the text
together are cut into the tag and the lexeme (`tokenize_text_alone`), except for
an identifier that is a reserved word: alone it would be the keyword.
-/

namespace PhpTokens.Lexer

open Scanner

theorem endsAlike_nil (r : List Char) : EndsAlike r [] where
  reflects := by
    intro x hx _
    rw [List.prefix_nil.1 hx]
    exact List.nil_prefix
  head?_eq := by
    intro d hd
    cases hd
  endsComment := by
    intro ending hr
    cases hr with
    | newline hnewline => exact .newline (hnewline.congr (by simp))
    | close _ => exact .last
    | last => exact .last

/-- A mark with nothing behind it opens no heredoc: of three `<` it would be the
first two. -/
theorem heredocHeader?_mark {c : Char} {t r : List Char} {cut : Cut}
    (hlength : cut.length = (c :: t).length)
    (hcut : ∀ o n, Operator.leading? (c :: (t ++ r)) = some (o, n) →
      cut = ⟨some (.operator o), n⟩) : heredocHeader? (c :: t) = none := by
  refine Option.eq_none_iff_forall_ne_some.2 fun header hheader => ?_
  obtain ⟨rfl, after, rfl⟩ := head_of_heredocHeader? hheader
  have hleading : Operator.leading? ('<' :: '<' :: '<' :: (after ++ r)) = some (.shiftLeft, 2) :=
    rfl
  obtain rfl := hcut _ _ hleading
  cases hlength

theorem CodeCut.alone [Limits] {nameExpected : Bool} {c : Char} {t r : List Char} {cut : Cut}
    (h : CodeCut nameExpected c (t ++ r) cut) (hlength : cut.length = (c :: t).length) :
    CodeCut nameExpected c t cut := by
  rw [← List.append_nil t]
  refine (endsAlike_nil r).codeCut h hlength ?_
  intro _ hcut
  rw [List.append_nil]
  exact heredocHeader?_mark hlength hcut

/-- The flag matters to reserved words only. -/
theorem CodeCut.unflagged [Limits] {nameExpected : Bool} {c : Char} {t : List Char} {cut : Cut}
    (h : CodeCut nameExpected c t cut) (hlength : cut.length = (c :: t).length)
    (hname : cut.type? = some .identifier → Keyword.ofWord? (String.ofList (c :: t)) = none) :
    CodeCut false c t cut := by
  cases h with
  | keyword hc hword hk _ hsize => exact .keyword hc hword hk rfl hsize
  | @identifier word hc hword _ hsize =>
      have hwhole : word = c :: t := by
        rw [← hword] at hlength ⊢
        exact (List.takeWhile_prefix isNameChar).eq_of_length hlength
      refine .identifier hc hword (.inl ?_) hsize
      rw [hwhole]
      exact hname rfl
  | blockComment hc hcs hn hdoc hsize => exact .blockComment hc hcs hn hdoc hsize
  | heredoc hheader hn hsize => exact .heredoc hheader hn hsize
  | _ => constructor <;> assumption

/-- Behind an open tag any text is read as code. -/
theorem Scanner.reads_openTag [Limits] (text : String) :
    ∃ s, Reads (start ("<?php " ++ text)) [.typed .openTag "<?php "] s ∧ s.rest = text.toList ∧
      s.inCode = true ∧ s.nameExpected = false := by
  have hrest : (start ("<?php " ++ text)).rest = ['<', '?', 'p', 'h', 'p', ' '] ++ text.toList := by
    rw [start, String.toList_append]
    rfl
  have htag : IsOpenTag .openTag ['<', '?', 'p', 'h', 'p', ' '] text.toList :=
    .blank ⟨rfl, rfl, rfl⟩ rfl fun h => by cases h
  have hcut : cutTemplate (['<', '?', 'p', 'h', 'p', ' '] ++ text.toList) =
      ⟨some .openTag, 6⟩ := by
    rw [cutTemplate, htag.openTag?_append]
    rfl
  have hnext : (start ("<?php " ++ text)).next '<' (['?', 'p', 'h', 'p', ' '] ++ text.toList) =
      .ok ⟨some .openTag, 6⟩ :=
    next_eq_ok_iff.2 ⟨congrArg Except.ok hcut, Limits.tokens_pos⟩
  obtain ⟨hlexeme, htail⟩ := lexeme_eq_of_rest ⟨some .openTag, 6⟩ hrest rfl
  refine ⟨(start ("<?php " ++ text)).take ⟨some .openTag, 6⟩, ?_, htail, rfl, rfl⟩
  have hreads := Reads.more hrest hnext (.done _)
  rw [hlexeme] at hreads
  exact hreads

theorem Scanner.next_codeCut [Limits] {s : Scanner} {c : Char} {cs : List Char} {cut : Cut}
    (h : s.next c cs = .ok cut) (hhtml : cut.type? ≠ some .inlineHtml)
    (hopen : cut.type? ≠ some .openTag) (hecho : cut.type? ≠ some .openTagWithEcho) :
    CodeCut s.nameExpected c cs cut := by
  rcases next_cases h with ⟨-, hcut⟩ | ⟨-, rfl⟩
  · exact hcut
  · rcases cutTemplate_type (c :: cs) with htype | htype | htype
    · exact absurd htype hopen
    · exact absurd htype hecho
    · exact absurd htype hhtml

end PhpTokens.Lexer
