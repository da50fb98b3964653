import PhpTokens.Proofs.CodeFault
import PhpTokens.Proofs.Reads

/-!
# Where a run fails

A run fails in code, for a reason that the text at hand gives, or because it
has read as many lexemes as it may (`Scanner.stops_iff`). Template text is
never refused, so the mode matters; and it can be read off the lexemes, since
the text is code behind an open tag until the next close tag
(`Reads.inCode_eq`).

`ReachesCode` speaks of the places in code that a run comes by, in terms of its
lexemes and its source alone. A fault at such a place is the end of the run:
nothing is read behind it, and it is what the run fails with
(`ReachesCode.tokenize_eq_error`).
-/

namespace PhpTokens

namespace Lexeme

def isOpenTag (l : Lexeme) : Bool :=
  l.type? == some .openTag || l.type? == some .openTagWithEcho

def isTag (l : Lexeme) : Bool := l.isOpenTag || l.type? == some .closeTag

end Lexeme

namespace Lexer

open Scanner

/-! ## The mode -/

/-- Code follows the lexemes: the last tag among them is an open tag. -/
def endsInCode (ls : List Lexeme) : Bool := (ls.filter Lexeme.isTag).getLast?.any Lexeme.isOpenTag

theorem entersCode_eq_ite (before : Bool) (l : Lexeme) :
    entersCode before l.type? = if l.isTag then l.isOpenTag else before := by
  obtain ⟨type?, text⟩ := l
  cases type? with
  | none => rfl
  | some type => cases type <;> rfl

theorem endsInCode_concat (ls : List Lexeme) (l : Lexeme) :
    endsInCode (ls ++ [l]) = entersCode (endsInCode ls) l.type? := by
  rw [entersCode_eq_ite, endsInCode, List.filter_append]
  split
  · next htag =>
      rw [List.filter_cons_of_pos htag, List.filter_nil, List.getLast?_concat]
      rfl
  · next htag =>
      rw [List.filter_cons_of_neg htag, List.filter_nil, List.append_nil]
      rfl

variable [Limits]

theorem Scanner.Reads.inCode_eq {s s' : Scanner} {ls : List Lexeme} (h : Reads s ls s')
    (before : List Lexeme) (hs : s.inCode = endsInCode before) :
    s'.inCode = endsInCode (before ++ ls) := by
  induction h generalizing before with
  | done s => rw [hs, List.append_nil]
  | @more s s' c cs cut ls _ _ _ ih =>
      have hmode : (s.take cut).inCode = endsInCode (before ++ [s.lexeme cut]) := by
        rw [endsInCode_concat, ← hs]
        rfl
      rw [ih _ hmode, List.append_assoc]
      rfl

/-! ## The places that a run comes by -/

/-- The run over `source` reads the lexemes `ls` first, and stands in code before
`r` then. -/
structure ReachesCode (source : String) (ls : List Lexeme) (r : List Char) : Prop where
  reached : ls <+: (scan source).lexemes.toList
  source_eq : source.toList = textOf ls ++ r
  inCode : endsInCode ls = true

theorem prefix_of_reads {source : String} {ls : List Lexeme} {s : Scanner}
    (h : Reads (start source) ls s) : ls <+: (scan source).lexemes.toList := by
  obtain ⟨more, hmore, hstops⟩ := run_spec s
  rw [scan_eq_of_reads (h.append hmore) hstops]
  exact List.prefix_append ls more

theorem exists_reads_of_prefix {source : String} {ls : List Lexeme}
    (h : ls <+: (scan source).lexemes.toList) : ∃ s, Reads (start source) ls s := by
  obtain ⟨more, hmore⟩ := h
  obtain ⟨s, hreads, -⟩ := scan_reads source
  rw [← hmore] at hreads
  obtain ⟨s', hread, -⟩ := hreads.split
  exact ⟨s', hread⟩

theorem reachesCode_iff {source : String} {ls : List Lexeme} {r : List Char} :
    ReachesCode source ls r ↔
      ∃ s, Reads (start source) ls s ∧ s.rest = r ∧ s.inCode = true := by
  constructor
  · intro h
    obtain ⟨s, hreads⟩ := exists_reads_of_prefix h.reached
    refine ⟨s, hreads, ?_, (hreads.inCode_eq [] rfl).trans h.inCode⟩
    have hsource : source.toList = textOf ls ++ s.rest := hreads.rest_eq
    exact List.append_cancel_left (hsource.symm.trans h.source_eq)
  · intro h
    obtain ⟨s, hreads, rfl, hcode⟩ := h
    exact ⟨prefix_of_reads hreads, hreads.rest_eq,
      (hreads.inCode_eq [] rfl).symm.trans hcode⟩

/-! ## Faults -/

theorem Scanner.cut_eq_error_iff {s : Scanner} {c : Char} {cs : List Char} {e : LexError} :
    s.cut c cs = .error e ↔ s.inCode = true ∧ CodeFault s.position c cs e := by
  unfold Scanner.cut
  split
  · next hcode => rw [cutCode_eq_error_iff, hcode, eq_self, true_and]
  · next hcode => simp [hcode]

/-- A scanner that fails is in code before a fault, or has read as many lexemes as
it may. -/
theorem Scanner.stops_iff {s : Scanner} {e : LexError} :
    s.Stops (some e) ↔
      ∃ c cs, s.rest = c :: cs ∧
        ((s.inCode = true ∧ CodeFault s.position c cs e) ∨
          (∃ cut, s.cut c cs = .ok cut) ∧ Limits.tokens ≤ s.lexemes.size ∧
            e = .tooManyTokens (s.lexemes.size + 1)) := by
  refine exists_congr fun c => exists_congr fun cs => and_congr_right fun _ => ?_
  rw [← Scanner.cut_eq_error_iff]
  unfold next
  split
  · next e' he => simp [he]
  · next cut hcut =>
      rw [hcut]
      split
      · next hfull => simp [hfull, eq_comm]
      · next hroom => simp [hroom]

theorem Scanner.Reads.size_le {s s' : Scanner} {ls : List Lexeme} (h : Reads s ls s')
    (hs : s.lexemes.size ≤ Limits.tokens) : s'.lexemes.size ≤ Limits.tokens := by
  induction h with
  | done s => exact hs
  | more _ hnext _ ih =>
      refine ih ?_
      rw [take_lexemes, Array.size_push]
      exact (next_eq_ok_iff.1 hnext).2

/-- A run fails at the end of what it has read, before a fault or with as many
lexemes as it may have. -/
theorem exists_fault_of_tokenize {lexer : Lexer} {source : String} {e : LexError}
    (h : (lexer.tokenize source).2.value = .error e) :
    (∃ s c cs, Reads (start source) (scan source).lexemes.toList s ∧ s.rest = c :: cs ∧
        s.inCode = true ∧ CodeFault s.position c cs e) ∨
      ∃ r, r ≠ [] ∧ source.toList = textOf (scan source).lexemes.toList ++ r ∧
        (scan source).lexemes.size = Limits.tokens ∧ e = .tooManyTokens (Limits.tokens + 1) := by
  obtain ⟨s, hreads, hstops⟩ := tokenize_eq_error_iff.1 h
  obtain ⟨c, cs, hrest, hfault | ⟨-, hfull, rfl⟩⟩ := stops_iff.1 hstops
  · exact .inl ⟨s, c, cs, hreads, hrest, hfault⟩
  · have hsize : s.lexemes.size = Limits.tokens :=
      Nat.le_antisymm (hreads.size_le (Nat.zero_le _)) hfull
    have hlexemes : s.lexemes.size = 0 + (scan source).lexemes.size := hreads.size_lexemes
    refine .inr ⟨c :: cs, by simp, ?_, by omega, by rw [hsize]⟩
    rw [← hrest]
    exact hreads.rest_eq

/-- Unless there were too many lexemes, the fault stands in code behind those that were
read. -/
theorem exists_reachesCode_of_tokenize {lexer : Lexer} {source : String} {e : LexError}
    (he : ∀ n, e ≠ .tooManyTokens n) (h : (lexer.tokenize source).2.value = .error e) :
    ∃ pos c cs, ReachesCode source (scan source).lexemes.toList (c :: cs) ∧
      CodeFault pos c cs e := by
  rcases exists_fault_of_tokenize h with
    ⟨s, c, cs, hreads, hrest, hcode, hfault⟩ | ⟨r, -, -, -, hfull⟩
  · exact ⟨s.position, c, cs, reachesCode_iff.2 ⟨s, hreads, hrest, hcode⟩, hfault⟩
  · exact absurd hfull (he _)

/-- At a place in code where the text at hand is a fault wherever it stands, the run
ends and fails. -/
theorem ReachesCode.tokenize_eq_error {source : String} {ls : List Lexeme} {c : Char}
    {cs : List Char} (h : ReachesCode source ls (c :: cs)) (lexer : Lexer)
    (fault : Position → LexError) (hfault : ∀ pos, CodeFault pos c cs (fault pos)) :
    ls = (scan source).lexemes.toList ∧
      (lexer.tokenize source).2.value = .error (fault (scan source).position) := by
  obtain ⟨s, hreads, hrest, hcode⟩ := reachesCode_iff.1 h
  have hstops : s.Stops (some (fault s.position)) :=
    stops_iff.2 ⟨c, cs, hrest, .inl ⟨hcode, hfault s.position⟩⟩
  have hscan := scan_eq_of_reads hreads hstops
  refine ⟨by rw [hscan], ?_⟩
  rw [tokenize_value, hscan]

end Lexer

end PhpTokens
