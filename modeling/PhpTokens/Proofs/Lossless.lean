import PhpTokens.Proofs.Reads
import PhpTokens.Proofs.Representation

/-!
# Nothing of a source is lost

The lexemes of a source are its text and nothing else: end to end they spell
it, blanks and comments included, and no lexeme is empty. A run that fails has
cut the source up to some place between two of its characters, with text left.

Both halves are one fact about reading, `Reads.rest_eq`: a lexeme is taken from
the front of the text at hand, and what is left is the text of the next one.
-/

namespace PhpTokens.Lexer

open Scanner

/-- The head of a source ends before the source does, and between two of its
characters. -/
structure IsProperHead (head source : String) : Prop where
  append_eq : ∃ left, left ≠ "" ∧ head ++ left = source
  isValid_end : head.rawEndPos.IsValid source
  end_lt : head.rawEndPos < source.rawEndPos

theorem isProperHead_append (head : String) {left : String} (h : left ≠ "") :
    IsProperHead head (head ++ left) := by
  refine ⟨⟨left, h, rfl⟩, ?_, ?_⟩
  · exact String.Pos.Raw.isValid_iff_exists_append.2 ⟨head, left, rfl, rfl⟩
  · have hpos : left.utf8ByteSize ≠ 0 := fun hzero => h (String.utf8ByteSize_eq_zero_iff.1 hzero)
    rw [String.Pos.Raw.lt_iff, String.byteIdx_rawEndPos, String.byteIdx_rawEndPos,
      String.utf8ByteSize_append]
    omega

/-- What was read spells a head of the source, and what was not read spells the
rest. -/
theorem join_text_append_rest [Limits] {source : String} {ls : List Lexeme} {s : Scanner}
    (h : Reads (start source) ls s) :
    String.join (ls.map (·.text)) ++ String.ofList s.rest = source := by
  rw [← String.toList_inj, String.toList_append, toList_join_text, String.toList_ofList,
    ← h.rest_eq]
  rfl

/-- A source that is cut has non-empty lexemes that spell it, and so do the
tokens of its sequence in the order of their indices. Where the cutting fails,
the lexemes before the failure are not empty either and spell a proper head of
the source. -/
theorem tokenize_lossless [Limits] (lexer : Lexer) (source : String) :
    match (lexer.tokenize source).2.value with
    | .ok ls =>
        (∀ l ∈ ls, l.text ≠ "") ∧ String.join (ls.toList.map (·.text)) = source ∧
          ∃ q, (Sequence.ofSource source lexer.preferences).value = .ok q ∧
            (∀ i t, q.get? i = some t → t.index = i) ∧
            String.join (q.tokens.toList.map (·.content)) = source
    | .error e =>
        (scan source).error? = some e ∧ (∀ l ∈ (scan source).lexemes, l.text ≠ "") ∧
          IsProperHead (String.join ((scan source).lexemes.toList.map (·.text))) source := by
  split
  · next ls hok =>
      obtain ⟨s, hreads, hrest⟩ := tokenize_eq_ok_iff.1 hok
      have hjoin : String.join (ls.toList.map (·.text)) = source := by
        have h := join_text_append_rest hreads
        rw [hrest] at h
        simpa using h
      refine ⟨fun l hl => hreads.text_ne_empty l hl.val, hjoin, Sequence.ofLexemes ls, ?_, ?_, ?_⟩
      · have hrun : (PhpTokens.tokenize source lexer.preferences).value = .ok ls := hok
        rw [Sequence.ofSource, Sequence.ofSourceWith_value, hrun]
        rfl
      · exact (Sequence.assemble_wellFormed ls .default).index_eq
      · rw [Sequence.ofLexemes, Sequence.assemble_contents]
        exact hjoin
  · next e herror =>
      obtain ⟨s, hreads, hstops⟩ := tokenize_eq_error_iff.1 herror
      refine ⟨congrArg Outcome.error? (scan_eq_of_reads hreads hstops),
        fun l hl => hreads.text_ne_empty l hl.val, ?_⟩
      obtain ⟨c, cs, hrest, -⟩ := hstops
      have hleft : String.ofList s.rest ≠ "" := by
        rw [hrest]
        intro hempty
        have := congrArg String.toList hempty
        simp at this
      have hhead := isProperHead_append
        (String.join ((scan source).lexemes.toList.map (·.text))) hleft
      rwa [join_text_append_rest hreads] at hhead

end PhpTokens.Lexer
