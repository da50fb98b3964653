import PhpTokens.Proofs.Alone
import PhpTokens.Proofs.HeredocExtent
import PhpTokens.Proofs.Position

/-!
# The line breaks of a heredoc

A header ends with any line break, a lone carriage return among them. To the
search for the closing label a line begins behind a line feed, and nowhere else.
As long as every line break has a line feed the two agree, and the search passes
the lines of a heredoc one by one (`heredocBodyFrom?_lines`). Where carriage
returns break the lines, all of the body is one line to the search: it finds the
closing label only if no line comes before it.

`heredocBodyLength?_bodyText` puts the two together, and
`tokenize_heredoc_lines` says it of sources that hold one heredoc.
-/

namespace PhpTokens.Lexer

open Scanner

/-- The lines of a heredoc, each with its line break, and the closing label. -/
def bodyText (newline label : List Char) (lines : List (List Char)) (indent : List Char) :
    List Char :=
  lines.flatMap (· ++ newline) ++ (indent ++ label)

/-- A heredoc with the same line break everywhere. -/
def heredocText (newline label : List Char) (lines : List (List Char)) (indent : List Char) :
    List Char :=
  headerText [] [] label newline ++ bodyText newline label lines indent

/-- A line that may stand in a heredoc before the closing label. A carriage return in it
makes no difference. -/
structure IsInnerLine (label line : List Char) : Prop where
  feed_not_mem : '\n' ∉ line
  not_closing : ¬ BeginsClosing label line

/-! ## The body -/

section

variable {newline label indent : List Char} {lines : List (List Char)}

theorem mem_lineBreaks_iff :
    newline ∈ lineBreaks ↔ newline = ['\n'] ∨ newline = ['\r'] ∨ newline = ['\r', '\n'] := by
  simp only [lineBreaks, List.mem_cons, List.not_mem_nil, or_false]

/-- The line break behind a line is where the search for a closing label ends. -/
theorem IsInnerLine.closingLabel?_append {line : List Char} (h : IsInnerLine label line)
    (hlabel : IsName label) (hnewline : newline ∈ lineBreaks) (rest : List Char) :
    closingLabel? label (line ++ (newline ++ rest)) = none := by
  have hline := (not_beginsClosing_iff hlabel).1 h.not_closing
  rcases mem_lineBreaks_iff.1 hnewline with rfl | rfl | rfl <;>
    exact (closingLabel?_append_cons hlabel (by decide) (by decide) line _).trans hline

/-- A line is passed with its line break, if that has a line feed. -/
theorem IsInnerLine.heredocBodyFrom?_append {line : List Char} (h : IsInnerLine label line)
    (hlabel : IsName label) (hnewline : newline ∈ lineBreaks) (hfeed : newline ≠ ['\r'])
    (rest : List Char) (n : Nat) :
    heredocBodyFrom? label n true (line ++ (newline ++ rest)) =
      heredocBodyFrom? label (n + (line ++ newline).length) true rest := by
  have hclosing := h.closingLabel?_append hlabel hnewline rest
  rcases mem_lineBreaks_iff.1 hnewline with rfl | rfl | rfl
  · rw [List.length_append, ← Nat.add_assoc]
    exact heredocBodyFrom?_line hclosing h.feed_not_mem n
  · exact absurd rfl hfeed
  · -- The carriage return counts as the last character of the line.
    have hsplit : line ++ (['\r', '\n'] ++ rest) = (line ++ ['\r']) ++ '\n' :: rest := by
      rw [List.append_assoc]
      rfl
    have hline : '\n' ∉ line ++ ['\r'] := by
      simp [h.feed_not_mem]
    rw [hsplit] at hclosing ⊢
    rw [heredocBodyFrom?_line hclosing hline]
    congr 1
    simp only [List.length_append, List.length_cons, List.length_nil]
    omega

theorem heredocBodyFrom?_lines (hlabel : IsName label) (hnewline : newline ∈ lineBreaks)
    (hfeed : newline ≠ ['\r']) (hlines : ∀ line ∈ lines, IsInnerLine label line)
    (rest : List Char) (n : Nat) :
    heredocBodyFrom? label n true (lines.flatMap (· ++ newline) ++ rest) =
      heredocBodyFrom? label (n + (lines.flatMap (· ++ newline)).length) true rest := by
  induction lines generalizing n with
  | nil => rfl
  | cons line lines ih =>
      have hline := hlines line List.mem_cons_self
      have hrest := fun line hmem => hlines line (List.mem_cons_of_mem _ hmem)
      rw [List.flatMap_cons, List.length_append, ← Nat.add_assoc, ← ih hrest, List.append_assoc,
        List.append_assoc]
      exact hline.heredocBodyFrom?_append hlabel hnewline hfeed _ n

/-- Where carriage returns break the lines, no line feed is in the body. -/
theorem feed_not_mem_bodyText (hlabel : IsName label) (hindent : ∀ c ∈ indent, isIndent c = true)
    (hlines : ∀ line ∈ lines, IsInnerLine label line) :
    '\n' ∉ bodyText ['\r'] label lines indent := by
  intro hmem
  simp only [bodyText, List.mem_append, List.mem_flatMap, List.mem_singleton] at hmem
  rcases hmem with ⟨line, hline, hmem | hmem⟩ | hmem | hmem
  · exact (hlines line hline).feed_not_mem hmem
  · cases hmem
  · exact absurd (hindent _ hmem) (by decide)
  · exact absurd (hlabel.all _ hmem) (by decide)

/-- The search ends with the body, unless carriage returns hide the line of the closing
label from it. -/
theorem heredocBodyLength?_bodyText (hnewline : newline ∈ lineBreaks) (hlabel : IsName label)
    (hindent : ∀ c ∈ indent, isIndent c = true) (hlines : ∀ line ∈ lines, IsInnerLine label line) :
    heredocBodyLength? label (bodyText newline label lines indent) =
      if newline = ['\r'] ∧ lines ≠ [] then none
      else some (bodyText newline label lines indent).length := by
  have hclosing : closingLabel? label (indent ++ label) = some (indent ++ label).length :=
    (closingLabel?_eq_some_iff hlabel).2
      ⟨indent, [], by rw [List.append_nil], hindent, rfl, List.length_append⟩
  split
  · next hhidden =>
      obtain ⟨rfl, hne⟩ := hhidden
      obtain ⟨line, lines, rfl⟩ := List.exists_cons_of_ne_nil hne
      refine heredocBodyFrom?_last ?_ (feed_not_mem_bodyText hlabel hindent hlines) 0
      rw [bodyText, List.flatMap_cons, List.append_assoc, List.append_assoc]
      exact (hlines line List.mem_cons_self).closingLabel?_append hlabel hnewline _
  · next hseen =>
      have hpassed : heredocBodyLength? label (bodyText newline label lines indent) =
          heredocBodyFrom? label (0 + (lines.flatMap (· ++ newline)).length) true
            (indent ++ label) := by
        by_cases hfeed : newline = ['\r']
        · have hnil : lines = [] := by
            by_contra hne
            exact hseen ⟨hfeed, hne⟩
          subst hnil
          rfl
        · exact heredocBodyFrom?_lines hlabel hnewline hfeed hlines (indent ++ label) 0
      rw [hpassed, heredocBodyFrom?_close hclosing, Nat.zero_add, ← List.length_append]
      rfl

/-! ## The literal -/

theorem isLineBreak_bodyText (hnewline : newline ∈ lineBreaks) (hlabel : IsName label)
    (hindent : ∀ c ∈ indent, isIndent c = true) (hlines : ∀ line ∈ lines, IsInnerLine label line) :
    IsLineBreak newline (bodyText newline label lines indent) := by
  rcases mem_lineBreaks_iff.1 hnewline with rfl | rfl | rfl
  · exact .feed _
  · refine .carriage fun hhead => ?_
    exact feed_not_mem_bodyText hlabel hindent hlines (List.mem_of_mem_head? hhead)
  · exact .pair _

theorem heredocHeader?_heredocText (hnewline : newline ∈ lineBreaks) (hlabel : IsName label)
    (hindent : ∀ c ∈ indent, isIndent c = true) (hlines : ∀ line ∈ lines, IsInnerLine label line) :
    heredocHeader? (heredocText newline label lines indent) =
      some ((headerText [] [] label newline).length, label) := by
  have hnone : ∀ c ∈ ([] : List Char), isIndent c = true := fun c hc => by cases hc
  exact IsHeader.heredocHeader?_append (.mk hnone (.inl rfl) hlabel
    (isLineBreak_bodyText hnewline hlabel hindent hlines))

end

/-! ## Sources of one literal -/

/-- A text that is cut as a whole is the only lexeme behind an open tag. -/
theorem tokenize_openTag_of_codeCut [Limits] (lexer : Lexer) {c : Char} {t : List Char}
    {type? : Option TokenType} (h : CodeCut false c t ⟨type?, (c :: t).length⟩) :
    (lexer.tokenize ("<?php " ++ String.ofList (c :: t))).2.value =
      .ok #[.typed .openTag "<?php ", ⟨type?, String.ofList (c :: t)⟩] := by
  obtain ⟨s, htag, hrest, hcode, hflag⟩ := reads_openTag (String.ofList (c :: t))
  rw [String.toList_ofList] at hrest
  have hsize : s.lexemes.size = 0 + 1 := htag.size_lexemes
  have hnext : s.next c t = .ok ⟨type?, (c :: t).length⟩ := by
    refine next_eq_ok_iff.2 ⟨?_, by rw [hsize]; exact Limits.two_le_tokens⟩
    rw [Scanner.cut, if_pos hcode, hflag]
    exact cutCode_eq_ok_iff.2 h
  obtain ⟨hlexeme, hend⟩ := lexeme_eq_of_rest ⟨type?, (c :: t).length⟩
    (hrest.trans (List.append_nil _).symm) rfl
  have hlast := Reads.more hrest hnext (.done _)
  rw [hlexeme] at hlast
  exact tokenize_eq_ok_iff.2 ⟨_, htag.append hlast, hend⟩

/-- A fault behind an open tag is at the seventh column of the first line. -/
theorem tokenize_openTag_of_codeFault [Limits] (lexer : Lexer) {c : Char} {t : List Char}
    {e : LexError} (h : CodeFault ⟨6, 1, 7⟩ c t e) :
    (lexer.tokenize ("<?php " ++ String.ofList (c :: t))).2.value = .error e := by
  obtain ⟨s, htag, hrest, hcode, -⟩ := reads_openTag (String.ofList (c :: t))
  rw [String.toList_ofList] at hrest
  have hposition : s.position = ⟨6, 1, 7⟩ := htag.position_eq
  have hstops : s.Stops (some e) :=
    stops_iff.2 ⟨c, t, hrest, .inl ⟨hcode, by rw [hposition]; exact h⟩⟩
  rw [tokenize_value, scan_eq_of_reads htag hstops]

/-- A heredoc whose lines all end with the same line break is one literal behind an open
tag, if that line break has a line feed or no line comes before the closing label. With
lone carriage returns behind its lines it has no end, though one ends its header. -/
theorem tokenize_heredoc_lines [Limits] (lexer : Lexer) {newline label indent : List Char}
    {lines : List (List Char)} (hnewline : newline ∈ lineBreaks) (hlabel : IsName label)
    (hindent : ∀ c ∈ indent, isIndent c = true) (hlines : ∀ line ∈ lines, IsInnerLine label line)
    (hsize : Text.byteLength (heredocText newline label lines indent) ≤ Limits.stringBytes) :
    (lexer.tokenize ("<?php " ++ String.ofList (heredocText newline label lines indent))).2.value =
      if newline = ['\r'] ∧ lines ≠ [] then .error (.unterminatedString 1 7)
      else .ok #[.typed .openTag "<?php ",
        .typed .stringLiteral (String.ofList (heredocText newline label lines indent))] := by
  have hheader := heredocHeader?_heredocText hnewline hlabel hindent hlines
  have hbody := heredocBodyLength?_bodyText hnewline hlabel hindent hlines
  split
  · next hhidden =>
      rw [if_pos hhidden] at hbody
      have hopen : heredocBodyLength? label ((heredocText newline label lines indent).drop
          (headerText [] [] label newline).length) = none := by
        rw [heredocText, List.drop_left, hbody]
      exact tokenize_openTag_of_codeFault lexer (.openHeredoc hheader hopen)
  · next hseen =>
      rw [if_neg hseen] at hbody
      have hlength : (heredocBodyLength? label ((heredocText newline label lines indent).drop
          (headerText [] [] label newline).length)).map
            ((headerText [] [] label newline).length + ·) =
          some (heredocText newline label lines indent).length := by
        rw [heredocText, List.drop_left, hbody, List.length_append]
        rfl
      rw [← List.take_length (l := heredocText newline label lines indent)] at hsize
      exact tokenize_openTag_of_codeCut lexer (.heredoc hheader hlength hsize)

/-- Pairs of a carriage return and a line feed break the lines: one that begins with a
longer name is passed, and an indented label ends the literal. -/
theorem tokenize_heredoc_lines_pair :
    ['\r', '\n'] ∈ lineBreaks ∧ IsName ['A'] ∧ (∀ c ∈ [' '], isIndent c = true) ∧
      (∀ line ∈ [['A', 'B'], []], IsInnerLine ['A'] line) ∧
      (Lexer.tokenize {} ("<?php " ++ "<<<A\r\nAB\r\n\r\n A")).2.value =
        .ok #[.typed .openTag "<?php ", .typed .stringLiteral "<<<A\r\nAB\r\n\r\n A"] := by
  have hnewline : ['\r', '\n'] ∈ lineBreaks := by decide
  have hlabel : IsName ['A'] := ⟨by decide, List.all_eq_true.1 (by decide)⟩
  have hindent : ∀ c ∈ [' '], isIndent c = true := List.all_eq_true.1 (by decide)
  have hlines : ∀ line ∈ [['A', 'B'], []], IsInnerLine ['A'] line := by
    intro line hline
    simp only [List.mem_cons, List.not_mem_nil, or_false] at hline
    rcases hline with rfl | rfl
    · exact ⟨by decide, (not_beginsClosing_iff hlabel).2 (by decide)⟩
    · exact ⟨by decide, (not_beginsClosing_iff hlabel).2 (by decide)⟩
  have htext : String.ofList (heredocText ['\r', '\n'] ['A'] [['A', 'B'], []] [' ']) =
      "<<<A\r\nAB\r\n\r\n A" := by decide
  have hvalue := tokenize_heredoc_lines {} hnewline hlabel hindent hlines (by decide)
  rw [htext, if_neg (by decide)] at hvalue
  exact ⟨hnewline, hlabel, hindent, hlines, hvalue⟩

/-- With a carriage return behind its only line a heredoc is no literal. -/
theorem tokenize_heredoc_carriage_ne_ok :
    ['\r'] ∈ lineBreaks ∧ IsName ['A'] ∧ IsInnerLine ['A'] ['x'] ∧
      heredocText ['\r'] ['A'] [['x']] [] = "<<<A\rx\rA".toList ∧
      Text.byteLength "<<<A\rx\rA".toList ≤ Limits.stringBytes ∧
      (Lexer.tokenize {} ("<?php " ++ "<<<A\rx\rA")).2.value ≠
        .ok #[.typed .openTag "<?php ", .typed .stringLiteral "<<<A\rx\rA"] := by
  have hlabel : IsName ['A'] := ⟨by decide, List.all_eq_true.1 (by decide)⟩
  have hline : IsInnerLine ['A'] ['x'] :=
    ⟨by decide, (not_beginsClosing_iff hlabel).2 (by decide)⟩
  refine ⟨by decide, hlabel, hline, by decide, by decide, ?_⟩
  have hheader : heredocHeader? "<<<A\rx\rA".toList = some (5, ['A']) := by decide
  have hopen : heredocBodyLength? ['A'] ("<<<A\rx\rA".toList.drop 5) = none := by decide
  have hvalue := tokenize_openTag_of_codeFault {} (.openHeredoc hheader hopen)
  intro h
  cases hvalue.symm.trans h

end PhpTokens.Lexer
