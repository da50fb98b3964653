import PhpTokens.Proofs.Failure
import PhpTokens.Proofs.Spelling

/-!
# The limits that a run keeps

Names, comments and string literals have limits in bytes, and a run has one in
lexemes. A run that succeeds has kept them all (`Reads.withinLimits`). A run that
fails for one of them says by how much: the error gives the size of the whole
lexeme that is refused, which is not the size of a lexeme that was read. That
lexeme stands right behind those that were, since nothing of it is taken
(`tokenize_limits`).

What a whole lexeme is depends on the text behind it only where the lexeme has no
closing mark of its own: a name goes as far as it can, a line comment up to what
ends it, and a heredoc up to a label that does not go on.
-/

namespace PhpTokens

/-- The limit in bytes of the type is kept. A variable is measured without its dollar
sign. -/
def Lexeme.WithinLimits [Limits] (l : Lexeme) : Prop :=
  match l.type? with
  | some .identifier | some (.keyword _) => l.text.utf8ByteSize ≤ Limits.nameBytes
  | some .variableName => ∃ name, l.text = "$" ++ name ∧ name.utf8ByteSize ≤ Limits.nameBytes
  | some .comment | some .docComment => l.text.utf8ByteSize ≤ Limits.commentBytes
  | some .stringLiteral => l.text.utf8ByteSize ≤ Limits.stringBytes
  | _ => True

namespace Lexer

open Scanner

/-! ## Whole lexemes -/

/-- `name` is a name, whole where `after` follows it. -/
structure IsWholeName (name after : List Char) : Prop where
  isName : IsName name
  ends : after.head?.any isNameChar = false

/-- `t` is a comment, whole where `after` follows it. -/
inductive IsWholeComment : List Char → List Char → Prop where
  | line {mark body ending after : List Char} (hmark : mark = ['#'] ∨ mark = ['/', '/'])
      (hbody : IsLineText body) (hending : EndsComment ending after) :
      IsWholeComment (mark ++ (body ++ ending)) after
  | block {t : List Char} (h : IsBlockComment t) (after : List Char) : IsWholeComment t after

/-- `t` is a string literal, whole where `after` follows it. -/
inductive IsWholeString : List Char → List Char → Prop where
  | quoted {q : Char} {t : List Char} (hq : q = '\'' ∨ q = '"') (h : IsQuotedRest q t)
      (after : List Char) : IsWholeString (q :: t) after
  | heredoc {t after : List Char} (h : IsHeredoc t) (hafter : after.head?.any isNameChar = false) :
      IsWholeString t after

theorem isWholeName_takeWhile {cs : List Char} (h : cs.head?.any isNameStart = true) :
    IsWholeName (cs.takeWhile isNameChar) (cs.dropWhile isNameChar) where
  isName := isName_takeWhile h
  ends := by
    have hstop := List.head?_dropWhile_not isNameChar cs
    cases hhead : (cs.dropWhile isNameChar).head? with
    | none => rfl
    | some c =>
        rw [hhead] at hstop
        exact hstop

theorem exists_isWholeComment_line {c : Char} {cs : List Char} {mark : Nat}
    (hmark : OpensLineComment c cs mark) :
    ∃ t after, c :: cs = t ++ after ∧ lineCommentLength mark (c :: cs) = t.length ∧
      IsWholeComment t after := by
  obtain ⟨body, ending, after, htext, hbody, hending, hlength⟩ :=
    lineCommentFrom_spec mark ((c :: cs).drop mark)
  refine ⟨(c :: cs).take mark ++ (body ++ ending), after, ?_, ?_, .line ?_ hbody hending⟩
  · rw [List.append_assoc, List.append_assoc, ← htext, List.take_append_drop]
  · simp only [lineCommentLength, hlength, List.length_append,
      List.length_take_of_le hmark.le_length]
  · cases hmark with
    | hash hc =>
        subst hc
        exact .inl rfl
    | slashes hc hcs =>
        subst hc
        obtain ⟨rest, rfl⟩ := List.head?_eq_some_iff.1 hcs
        exact .inr rfl

theorem exists_isWholeString_heredoc {cs label : List Char} {n k : Nat}
    (hheader : heredocHeader? cs = some (k, label))
    (hbody : (heredocBodyLength? label (cs.drop k)).map (k + ·) = some n) :
    ∃ t after, cs = t ++ after ∧ n = t.length ∧ IsWholeString t after := by
  have hle := heredocLength_le hheader hbody
  obtain ⟨t, after, rfl, rfl⟩ : ∃ t after, cs = t ++ after ∧ n = t.length :=
    ⟨cs.take n, cs.drop n, (List.take_append_drop n cs).symm, (List.length_take_of_le hle).symm⟩
  refine ⟨t, after, rfl, rfl, .heredoc ?_ ?_⟩
  · -- With nothing behind it the literal is still a heredoc.
    have hnil : after.head?.any isNameChar = false →
        ([] : List Char).head?.any isNameChar = false := fun _ => rfl
    obtain ⟨hheader', hbody'⟩ := heredoc_congr hheader hbody hnil
    rw [List.append_nil] at hheader' hbody'
    exact isHeredoc_of_length hheader' hbody'
  · obtain ⟨header, b, rfl, -, hshape, hlength⟩ := exists_heredoc_eq hheader hbody
    exact head?_any_of_heredocBodyLength? hshape.isName hlength

/-! ## Lexemes that are refused -/

namespace CodeFault

variable {pos : Position} {c : Char} {cs : List Char} {n : Nat}

theorem of_identifierTooLong [Limits] (h : CodeFault pos c cs (.identifierTooLong n)) :
    Limits.nameBytes < n ∧ ∃ sigil name after, c :: cs = sigil ++ (name ++ after) ∧
      (sigil = [] ∨ sigil = ['$']) ∧ IsWholeName name after ∧ Text.byteLength name = n := by
  cases h with
  | longVariable hc hcs hname hsize =>
      subst hc hname
      refine ⟨hsize, ['$'], _, _, ?_, .inr rfl, isWholeName_takeWhile hcs, rfl⟩
      rw [List.takeWhile_append_dropWhile]
      rfl
  | longWord hc hword hsize =>
      subst hword
      have hhead : (c :: cs).head?.any isNameStart = true := hc
      refine ⟨hsize, [], _, _, ?_, .inl rfl, isWholeName_takeWhile hhead, rfl⟩
      rw [List.takeWhile_append_dropWhile]
      rfl

theorem of_commentTooLong [Limits] (h : CodeFault pos c cs (.commentTooLong n)) :
    Limits.commentBytes < n ∧ ∃ t after, c :: cs = t ++ after ∧ IsWholeComment t after ∧
      Text.byteLength t = n := by
  cases h with
  | longLineComment hmark hn hsize =>
      refine ⟨hsize, ?_⟩
      obtain ⟨t, after, hcs, hlength, hwhole⟩ := exists_isWholeComment_line hmark
      refine ⟨t, after, hcs, hwhole, ?_⟩
      rw [← hn, hlength, hcs, List.take_left]
  | longBlockComment hc hcs hn hsize =>
      refine ⟨hsize, ?_⟩
      subst hc
      obtain ⟨rest, rfl⟩ := List.head?_eq_some_iff.1 hcs
      obtain ⟨t, after, htext, rfl, hblock⟩ := isBlockComment_of_blockCommentLength? hn
      refine ⟨t, after, htext, .block hblock after, ?_⟩
      rw [htext, List.take_left]

theorem of_stringTooLarge [Limits] (h : CodeFault pos c cs (.stringTooLarge n)) :
    Limits.stringBytes < n ∧ ∃ t after, c :: cs = t ++ after ∧ IsWholeString t after ∧
      Text.byteLength t = n := by
  cases h with
  | longQuoted hc hn hsize =>
      refine ⟨hsize, ?_⟩
      obtain ⟨t, after, rfl, rfl, hquoted⟩ := quotedFrom?_spec hn
      refine ⟨c :: t, after, rfl, .quoted hc hquoted after, ?_⟩
      rw [Nat.add_comm, List.take_succ_cons, List.take_left]
  | longHeredoc hheader hn hsize =>
      refine ⟨hsize, ?_⟩
      obtain ⟨t, after, htext, rfl, hwhole⟩ := exists_isWholeString_heredoc hheader hn
      refine ⟨t, after, htext, hwhole, ?_⟩
      rw [htext, List.take_left]

end CodeFault

/-! ## Lexemes that are read -/

theorem CodeCut.withinLimits [Limits] {nameExpected : Bool} {c : Char} {cs : List Char} {cut : Cut}
    (h : CodeCut nameExpected c cs cut) :
    Lexeme.WithinLimits ⟨cut.type?, String.ofList ((c :: cs).take cut.length)⟩ := by
  have htake : ∀ xs : List Char, xs.take (xs.takeWhile isNameChar).length =
      xs.takeWhile isNameChar :=
    fun xs => (List.prefix_iff_eq_take.1 (List.takeWhile_prefix isNameChar)).symm
  cases h with
  | lineComment _ _ hsize | blockComment _ _ _ _ hsize | docComment _ _ _ _ hsize
  | quoted _ _ hsize | heredoc _ _ hsize =>
      rw [Text.byteLength_eq_utf8ByteSize] at hsize
      exact hsize
  | keyword _ hword _ _ hsize | identifier _ hword _ hsize =>
      subst hword
      rw [Text.byteLength_eq_utf8ByteSize] at hsize
      rw [htake]
      exact hsize
  | variableName hc _ hname hsize =>
      subst hc hname
      have hsigil : ∀ name : List Char, String.ofList (['$'] ++ name) =
          "$" ++ String.ofList name :=
        fun name => String.ofList_append
      rw [Text.byteLength_eq_utf8ByteSize] at hsize
      rw [Nat.add_comm, List.take_succ_cons, htake]
      exact ⟨_, hsigil _, hsize⟩
  | closeTag _ _ _ | blanks _ _ | separator _ | integer _ _ | float _ _ | operator _ _
  | bare _ _ _ => trivial

theorem Scanner.Reads.withinLimits [Limits] {s s' : Scanner} {ls : List Lexeme}
    (h : Reads s ls s') :
    ∀ l ∈ ls, l.WithinLimits := by
  induction h with
  | done s =>
      intro l hl
      cases hl
  | @more s s' c cs cut ls hrest hnext _ ih =>
      intro l hl
      rcases List.mem_cons.1 hl with rfl | hl
      · rcases next_cases hnext with ⟨-, hcut⟩ | ⟨-, rfl⟩
        · rw [lexeme, hrest]
          exact hcut.withinLimits
        · rw [lexeme]
          rcases cutTemplate_type (c :: cs) with h | h | h <;> rw [h] <;> trivial
      · exact ih l hl

/-- A run that succeeds keeps the limits. A run that fails for one names the size of
the lexeme that comes next, whole, which is above the limit, or it has read as
many lexemes as it may and text is left. -/
theorem tokenize_limits [Limits] (lexer : Lexer) (source : String) :
    (∀ ls, (lexer.tokenize source).2.value = .ok ls →
        ls.size ≤ Limits.tokens ∧ ∀ l ∈ ls, l.WithinLimits) ∧
      (∀ n, (lexer.tokenize source).2.value = .error (.identifierTooLong n) →
        Limits.nameBytes < n ∧ ∃ sigil name after,
          ReachesCode source (scan source).lexemes.toList (sigil ++ (name ++ after)) ∧
            (sigil = [] ∨ sigil = ['$']) ∧ IsWholeName name after ∧ Text.byteLength name = n) ∧
      (∀ n, (lexer.tokenize source).2.value = .error (.commentTooLong n) →
        Limits.commentBytes < n ∧ ∃ t after,
          ReachesCode source (scan source).lexemes.toList (t ++ after) ∧
            IsWholeComment t after ∧ Text.byteLength t = n) ∧
      (∀ n, (lexer.tokenize source).2.value = .error (.stringTooLarge n) →
        Limits.stringBytes < n ∧ ∃ t after,
          ReachesCode source (scan source).lexemes.toList (t ++ after) ∧
            IsWholeString t after ∧ Text.byteLength t = n) ∧
      (∀ n, (lexer.tokenize source).2.value = .error (.tooManyTokens n) →
        n = Limits.tokens + 1 ∧ (scan source).lexemes.size = Limits.tokens ∧
          ∃ r, r ≠ [] ∧ source.toList = textOf (scan source).lexemes.toList ++ r) := by
  refine ⟨?_, ?_, ?_, ?_, ?_⟩
  · intro ls hok
    obtain ⟨s, hreads, -⟩ := tokenize_eq_ok_iff.1 hok
    have hsize : s.lexemes.size = 0 + ls.size := hreads.size_lexemes
    have hle := hreads.size_le (Nat.zero_le _)
    exact ⟨by omega, fun l hl => hreads.withinLimits l hl.val⟩
  · intro n herror
    obtain ⟨pos, c, cs, hreaches, hfault⟩ := exists_reachesCode_of_tokenize (by simp) herror
    obtain ⟨hsize, sigil, name, after, hcs, hwhole⟩ := hfault.of_identifierTooLong
    rw [hcs] at hreaches
    exact ⟨hsize, sigil, name, after, hreaches, hwhole⟩
  · intro n herror
    obtain ⟨pos, c, cs, hreaches, hfault⟩ := exists_reachesCode_of_tokenize (by simp) herror
    obtain ⟨hsize, t, after, hcs, hwhole⟩ := hfault.of_commentTooLong
    rw [hcs] at hreaches
    exact ⟨hsize, t, after, hreaches, hwhole⟩
  · intro n herror
    obtain ⟨pos, c, cs, hreaches, hfault⟩ := exists_reachesCode_of_tokenize (by simp) herror
    obtain ⟨hsize, t, after, hcs, hwhole⟩ := hfault.of_stringTooLarge
    rw [hcs] at hreaches
    exact ⟨hsize, t, after, hreaches, hwhole⟩
  · intro n herror
    rcases exists_fault_of_tokenize herror with
      ⟨s, c, cs, -, -, -, hfault⟩ | ⟨r, hr, hsource, hsize, hcount⟩
    · cases hfault
    · cases hcount
      exact ⟨rfl, hsize, r, hr, hsource⟩

end Lexer

end PhpTokens
