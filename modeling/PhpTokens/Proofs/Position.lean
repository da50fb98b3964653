import PhpTokens.Proofs.Failure
import PhpTokens.Proofs.LineColumn

/-!
# Where a run stands

A position is advanced lexeme by lexeme, and within a lexeme character by
character. The scanner's position is that of the text that it has read
(`Reads.position_eq`), whatever the lexemes are that divide it, and that depends
on the text alone.

So everything that speaks of the place of a failure speaks of the same place:
the position where the run ended, the line and the column in the error, and the
span of the report (`tokenize_error_place`).
-/

namespace PhpTokens

namespace Lexer

open Scanner

/-- The text that is read of a source, up to its end or to the failure. -/
def textRead [Limits] (source : String) : String :=
  String.join ((scan source).lexemes.toList.map (·.text))

theorem Scanner.Reads.position_eq [Limits] {s s' : Scanner} {ls : List Lexeme} (h : Reads s ls s') :
    s'.position = s.position.advanceBy (textOf ls) := by
  induction h with
  | done s => rfl
  | more _ _ _ ih =>
      rw [ih, textOf_cons, Position.advanceBy_append, lexeme_text, String.toList_ofList]
      rfl

theorem position_eq_of_reads [Limits] {source : String} {s : Scanner}
    (h : Reads (start source) (scan source).lexemes.toList s) :
    s.position = .behind (textRead source) := by
  have htext : textRead source = String.ofList (textOf (scan source).lexemes.toList) := by
    rw [textRead, ← toList_join_text, String.ofList_toList]
  rw [htext, ← Position.advanceBy_start]
  exact h.position_eq

/-- The errors that carry a place carry that of the position. -/
theorem CodeFault.place_eq [Limits] {pos : Position} {c : Char} {cs : List Char} {e : LexError}
    (h : CodeFault pos c cs e) {line column : UInt32}
    (he : (∃ d, e = .invalidCharacter d line column) ∨ e = .unterminatedString line column ∨
      e = .unterminatedComment line column) : line = pos.line ∧ column = pos.column := by
  rcases he with ⟨d, rfl⟩ | rfl | rfl
  · cases h with
    | control _ => exact ⟨rfl, rfl⟩
  · cases h with
    | openQuoted _ _ => exact ⟨rfl, rfl⟩
    | openHeredoc _ _ => exact ⟨rfl, rfl⟩
  · cases h with
    | openComment _ _ _ => exact ⟨rfl, rfl⟩

/-- The one error among the reports of a run that fails stands where the run ended. -/
theorem errorSpans_of_tokenize [Limits] {lexer : Lexer} {source : String} {e : LexError}
    (h : (lexer.tokenize source).2.value = .error e) :
    ((lexer.tokenize source).2.events.filter (·.level = .error)).map (·.span?) =
      [some (.point (scan source).position)] := by
  obtain ⟨s, hreads, hstops⟩ := tokenize_eq_error_iff.1 h
  have herror := congrArg Outcome.error? (scan_eq_of_reads hreads hstops)
  have hbegin : (beginEvent source).level = .debug := rfl
  have hlevel : ∀ withPosition outcome, (failureEvent withPosition outcome e).level = .error :=
    fun _ _ => rfl
  have hspan : ∀ withPosition outcome,
      (failureEvent withPosition outcome e).span? = some (.point outcome.position) :=
    fun _ _ => rfl
  simp only [tokenize]
  rw [scan_detailed]
  simp [runEvents, herror, hbegin, hlevel, hspan]

/-- A run that fails stands behind the text that it has read, and says its line and its column
in full if 32 bits count them. The error, if it carries a place, carries that one, and so does
the error that is reported. -/
theorem tokenize_error_place [Limits] (lexer : Lexer) {source : String} {e : LexError}
    (h : (lexer.tokenize source).2.value = .error e) :
    (scan source).position = .behind (textRead source) ∧
      (Position.Fits (textRead source).toList →
        (Position.behind (textRead source)).line.toNat = Position.lineOf (textRead source).toList ∧
        (Position.behind (textRead source)).column.toNat =
          Position.columnOf (textRead source).toList) ∧
      (∀ line column, (∃ c, e = .invalidCharacter c line column) ∨
          e = .unterminatedString line column ∨ e = .unterminatedComment line column →
        line = (Position.behind (textRead source)).line ∧
          column = (Position.behind (textRead source)).column) ∧
      ((lexer.tokenize source).2.events.filter (·.level = .error)).map (·.span?) =
        [some ⟨.behind (textRead source), .behind (textRead source)⟩] := by
  obtain ⟨s, hreads, -, hposition, -⟩ := scan_reads source
  have hplace := hposition.symm.trans (position_eq_of_reads hreads)
  refine ⟨hplace, fun hfits => ⟨hfits.toNat_line, hfits.toNat_column⟩, ?_, ?_⟩
  · intro line column he
    rcases exists_fault_of_tokenize h with ⟨s, c, cs, hreads, -, -, hfault⟩ | ⟨r, -, -, -, rfl⟩
    · rw [← position_eq_of_reads hreads]
      exact hfault.place_eq he
    · simp at he
  · rw [errorSpans_of_tokenize h, hplace]
    rfl

/-- A string literal without end, behind a line break of two characters and a letter
of two bytes. -/
theorem tokenize_error_place_crlf :
    (Lexer.tokenize {} "<?php\n$é=\r\n 'x").2.value = .error (.unterminatedString 3 2) ∧
      (scan "<?php\n$é=\r\n 'x").position = .behind (textRead "<?php\n$é=\r\n 'x") ∧
      textRead "<?php\n$é=\r\n 'x" = "<?php\n$é=\r\n " ∧
      Position.behind "<?php\n$é=\r\n " = ⟨13, 3, 2⟩ := by
  have hscan : scan "<?php\n$é=\r\n 'x" =
      ⟨#[.typed .openTag "<?php\n", .typed .variableName "$é", .bare "=",
        .typed .whitespace "\r\n "], ⟨13, 3, 2⟩, some (.unterminatedString 3 2),
        { total := 4, bare := 1, whitespace := 1 }⟩ :=
    scan_eq_of_runWithin? (s := ⟨['\'', 'x'], ⟨13, 3, 2⟩, true, false, true, _, _⟩) 5 (by decide)
  have hvalue : (Lexer.tokenize {} "<?php\n$é=\r\n 'x").2.value =
      .error (.unterminatedString 3 2) := by
    rw [tokenize_value, hscan]
  refine ⟨hvalue, (tokenize_error_place {} hvalue).1, ?_, by decide⟩
  rw [textRead, hscan]
  decide

end Lexer

end PhpTokens
