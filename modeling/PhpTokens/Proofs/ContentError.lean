import PhpTokens.Proofs.Failure
import PhpTokens.Proofs.Spelling

/-!
# What makes a source invalid

Three of the errors say that some text is no lexeme. Each has a cause that can
be seen in the text at hand: a control character; a block comment without `*/`;
a quote, or the header of a heredoc, whose literal does not end. A run fails
with such an error just if it comes by a place in code where the cause stands
(`tokenize_content_error_iff`).

Both directions need the rules to leave no gap. Where a cause stands nothing
else is read, so the run ends there; and where a rule fails for another reason
than a limit, its cause is one of these. The causes may stand inside literals,
comments and template text without harm, since the run does not stop there.
-/

namespace PhpTokens.Lexer

open Scanner

/-- A block comment begins the text, and nothing ends it. -/
def OpenComment (r : List Char) : Prop :=
  ∃ after, r = '/' :: '*' :: after ∧ ¬ ['*', '/'] <:+: after

/-- A quote begins the text, and no head of the text is a literal with this quote. -/
def OpenQuoted (r : List Char) : Prop :=
  ∃ q, (q = '\'' ∨ q = '"') ∧ r.head? = some q ∧ ∀ t, q :: t <+: r → ¬ IsQuotedRest q t

/-- The header of a heredoc begins the text, and no line behind it begins with the
closing label. -/
def OpenHeredoc (r : List Char) : Prop :=
  ∃ label header body, r = header ++ body ∧ IsHeader label header body ∧
    ∀ x y, body = x ++ y → (x = [] ∨ x.getLast? = some '\n') → ¬ BeginsClosing label y

theorem openQuoted_cons_iff {c : Char} {cs : List Char} :
    OpenQuoted (c :: cs) ↔ (c = '\'' ∨ c = '"') ∧ quotedLength? (c :: cs) = none := by
  have hescape : c = '\'' ∨ c = '"' → c ≠ '\\' := by
    intro hc
    rcases hc with rfl | rfl <;> decide
  constructor
  · intro h
    obtain ⟨q, hq, hhead, hopen⟩ := h
    obtain rfl : c = q := by simpa using hhead
    refine ⟨hq, (quotedFrom?_eq_none_iff (hescape hq)).2 ?_⟩
    intro t ht
    exact hopen t (List.cons_prefix_cons.2 ⟨rfl, ht⟩)
  · intro h
    obtain ⟨hc, hnone⟩ := h
    refine ⟨c, hc, rfl, ?_⟩
    intro t ht
    exact (quotedFrom?_eq_none_iff (hescape hc)).1 hnone t (List.cons_prefix_cons.1 ht).2

theorem not_beginsClosing_iff {label cs : List Char} (hlabel : IsName label) :
    ¬ BeginsClosing label cs ↔ closingLabel? label cs = none := by
  rw [Option.eq_none_iff_forall_ne_some]
  constructor
  · intro h n hn
    obtain ⟨indent, rest, hcs, hindent, hstop, -⟩ := (closingLabel?_eq_some_iff hlabel).1 hn
    exact h ⟨indent, rest, hcs, hindent, hstop⟩
  · intro h hclosing
    obtain ⟨indent, rest, hcs, hindent, hstop⟩ := hclosing
    exact h _ ((closingLabel?_eq_some_iff hlabel).2 ⟨indent, rest, hcs, hindent, hstop, rfl⟩)

theorem heredocBodyLength?_eq_none_iff {label body : List Char} (hlabel : IsName label) :
    heredocBodyLength? label body = none ↔
      ∀ x y, body = x ++ y → (x = [] ∨ x.getLast? = some '\n') → ¬ BeginsClosing label y := by
  rw [heredocBodyLength?, heredocBodyFrom?_eq_none_iff]
  refine forall_congr' fun x => forall_congr' fun y => imp_congr_right fun _ => ?_
  rw [lineBegins_true_iff, not_beginsClosing_iff hlabel]

theorem openHeredoc_iff {cs : List Char} :
    OpenHeredoc cs ↔
      ∃ n label, heredocHeader? cs = some (n, label) ∧
        heredocBodyLength? label (cs.drop n) = none := by
  constructor
  · intro h
    obtain ⟨label, header, body, rfl, hheader, hopen⟩ := h
    refine ⟨header.length, label, hheader.heredocHeader?_append, ?_⟩
    rw [List.drop_left]
    exact (heredocBodyLength?_eq_none_iff hheader.isName).2 hopen
  · intro h
    obtain ⟨n, label, hsome, hnone⟩ := h
    obtain ⟨header, body, rfl, rfl, hheader⟩ := heredocHeader?_eq_some_iff.1 hsome
    rw [List.drop_left] at hnone
    exact ⟨label, header, body, rfl, hheader,
      (heredocBodyLength?_eq_none_iff hheader.isName).1 hnone⟩

/-! ## Faults and their causes -/

variable [Limits]

theorem codeFault_invalidCharacter_iff {pos : Position} {c d : Char} {cs : List Char}
    {line column : UInt32} :
    CodeFault pos c cs (.invalidCharacter d line column) ↔
      (line = pos.line ∧ column = pos.column) ∧ (c :: cs).head? = some d ∧ IsControl d := by
  constructor
  · intro h
    cases h with
    | control hc => exact ⟨⟨rfl, rfl⟩, rfl, hc⟩
  · intro h
    obtain ⟨⟨rfl, rfl⟩, hhead, hd⟩ := h
    obtain rfl : c = d := by simpa using hhead
    exact .control hd

theorem codeFault_unterminatedComment_iff {pos : Position} {c : Char} {cs : List Char}
    {line column : UInt32} :
    CodeFault pos c cs (.unterminatedComment line column) ↔
      (line = pos.line ∧ column = pos.column) ∧ OpenComment (c :: cs) := by
  constructor
  · intro h
    cases h with
    | openComment hc hcs hn =>
        obtain ⟨after, rfl⟩ := List.head?_eq_some_iff.1 hcs
        subst hc
        exact ⟨⟨rfl, rfl⟩, after, rfl, blockCommentFrom?_eq_none_iff.1 hn⟩
  · intro h
    obtain ⟨⟨rfl, rfl⟩, after, hcs, hopen⟩ := h
    cases hcs
    exact .openComment rfl rfl (blockCommentFrom?_eq_none_iff.2 hopen)

theorem codeFault_unterminatedString_iff {pos : Position} {c : Char} {cs : List Char}
    {line column : UInt32} :
    CodeFault pos c cs (.unterminatedString line column) ↔
      (line = pos.line ∧ column = pos.column) ∧
        (OpenQuoted (c :: cs) ∨ OpenHeredoc (c :: cs)) := by
  rw [openQuoted_cons_iff, openHeredoc_iff]
  constructor
  · intro h
    cases h with
    | openQuoted hc hn => exact ⟨⟨rfl, rfl⟩, .inl ⟨hc, hn⟩⟩
    | openHeredoc hheader hn => exact ⟨⟨rfl, rfl⟩, .inr ⟨_, _, hheader, hn⟩⟩
  · intro h
    obtain ⟨⟨rfl, rfl⟩, ⟨hc, hn⟩ | ⟨n, label, hheader, hn⟩⟩ := h
    · exact .openQuoted hc hn
    · exact .openHeredoc hheader hn

/-! ## Runs -/

/-- An error that has a cause: it is the fault of the texts where the cause stands, and
carries the place. -/
structure IsCause (error : UInt32 → UInt32 → LexError) (cause : List Char → Prop) : Prop where
  fault_iff : ∀ {pos c cs line column}, CodeFault pos c cs (error line column) ↔
    (line = pos.line ∧ column = pos.column) ∧ cause (c :: cs)
  not_nil : ¬ cause []
  ne_tooManyTokens : ∀ line column n, error line column ≠ .tooManyTokens n

theorem isCause_control (c : Char) :
    IsCause (.invalidCharacter c) fun r => r.head? = some c ∧ IsControl c where
  fault_iff := codeFault_invalidCharacter_iff
  not_nil := by simp
  ne_tooManyTokens := by simp

theorem isCause_openComment : IsCause .unterminatedComment OpenComment where
  fault_iff := codeFault_unterminatedComment_iff
  not_nil := by simp [OpenComment]
  ne_tooManyTokens := by simp

theorem isCause_openString :
    IsCause .unterminatedString fun r => OpenQuoted r ∨ OpenHeredoc r where
  fault_iff := codeFault_unterminatedString_iff
  not_nil := by
    intro h
    rcases h with ⟨q, -, hhead, -⟩ | h
    · cases hhead
    · obtain ⟨n, label, hheader, -⟩ := openHeredoc_iff.1 h
      cases hheader
  ne_tooManyTokens := by simp

namespace IsCause

variable {error : UInt32 → UInt32 → LexError} {cause : List Char → Prop} {source : String}

/-- The run ends at the first place where the cause of an error stands, with that
error. -/
theorem tokenize_eq_error (h : IsCause error cause) (lexer : Lexer) {ls : List Lexeme}
    {r : List Char} (hreaches : ReachesCode source ls r) (hr : cause r) :
    ls = (scan source).lexemes.toList ∧
      ∃ line column, (lexer.tokenize source).2.value = .error (error line column) := by
  cases r with
  | nil => exact absurd hr h.not_nil
  | cons c cs =>
      obtain ⟨hls, herror⟩ := hreaches.tokenize_eq_error lexer
        (fun pos => error pos.line pos.column) fun _ => h.fault_iff.2 ⟨⟨rfl, rfl⟩, hr⟩
      exact ⟨hls, _, _, herror⟩

theorem tokenize_eq_error_iff (h : IsCause error cause) (lexer : Lexer) :
    (∃ line column, (lexer.tokenize source).2.value = .error (error line column)) ↔
      ∃ ls r, ReachesCode source ls r ∧ cause r := by
  constructor
  · intro herror
    obtain ⟨line, column, herror⟩ := herror
    obtain ⟨pos, c, cs, hreaches, hfault⟩ :=
      exists_reachesCode_of_tokenize (h.ne_tooManyTokens line column) herror
    exact ⟨_, c :: cs, hreaches, (h.fault_iff.1 hfault).2⟩
  · intro hreaches
    obtain ⟨ls, r, hreaches, hr⟩ := hreaches
    exact (h.tokenize_eq_error lexer hreaches hr).2

end IsCause

/-- A run fails with a control character, with a comment without end or with a string
literal without end just if it comes by a place in code where such a character,
comment or literal begins, and it reads no lexeme behind that place. -/
theorem tokenize_content_error_iff (lexer : Lexer) (source : String) :
    (∀ c, (∃ line column,
          (lexer.tokenize source).2.value = .error (.invalidCharacter c line column)) ↔
        ∃ ls r, ReachesCode source ls r ∧ r.head? = some c ∧ IsControl c) ∧
      ((∃ line column,
          (lexer.tokenize source).2.value = .error (.unterminatedComment line column)) ↔
        ∃ ls r, ReachesCode source ls r ∧ OpenComment r) ∧
      ((∃ line column,
          (lexer.tokenize source).2.value = .error (.unterminatedString line column)) ↔
        ∃ ls r, ReachesCode source ls r ∧ (OpenQuoted r ∨ OpenHeredoc r)) ∧
      (∀ ls r, ReachesCode source ls r →
        (∃ c, r.head? = some c ∧ IsControl c) ∨ OpenComment r ∨ OpenQuoted r ∨ OpenHeredoc r →
          ls = (scan source).lexemes.toList) ∧
      ((∀ c ∈ source.toList, ¬ IsControl c) → ∀ c line column,
        (lexer.tokenize source).2.value ≠ .error (.invalidCharacter c line column)) := by
  refine ⟨fun c => (isCause_control c).tokenize_eq_error_iff lexer,
    isCause_openComment.tokenize_eq_error_iff lexer,
    isCause_openString.tokenize_eq_error_iff lexer, ?_, ?_⟩
  · intro ls r hreaches hr
    rcases hr with ⟨c, hr⟩ | hr | hr
    · exact ((isCause_control c).tokenize_eq_error lexer hreaches hr).1
    · exact (isCause_openComment.tokenize_eq_error lexer hreaches hr).1
    · exact (isCause_openString.tokenize_eq_error lexer hreaches hr).1
  · intro hnone c line column herror
    obtain ⟨ls, r, hreaches, hhead, hc⟩ :=
      ((isCause_control c).tokenize_eq_error_iff lexer).1 ⟨line, column, herror⟩
    obtain ⟨after, rfl⟩ := List.head?_eq_some_iff.1 hhead
    refine hnone c ?_ hc
    rw [hreaches.source_eq]
    exact List.mem_append_right _ List.mem_cons_self

end PhpTokens.Lexer
