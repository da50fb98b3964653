import PhpTokens.Lexer.Basic

/-!
# Runs, lexeme by lexeme

`Scanner.run` answers with a scanner and perhaps an error, and most of what is
wanted of it is about neither: it is about the lexemes on the way. `Reads` is
the run seen from there. `Reads s ls s'` says that the scanner `s` takes the
lexemes `ls`, one after the other, and is `s'` afterwards, whether or not the
run could go on.

The two views determine each other. A run reads some lexemes and stops where
the text ends or a cut fails (`run_spec`), and whatever is read up to such a
place is the run (`run_eq_of_reads`). So a theorem about every run is an
induction over `Reads`, whose one interesting case is a single cut.

The counts are carried along and decide nothing: with other counts the same
lexemes are read (`Reads.counting`), so a theorem that is not about counts can
speak of `scan source`, however the lexer counts.
-/

namespace PhpTokens.Lexer

/-- The text of some lexemes, end to end. -/
def textOf (ls : List Lexeme) : List Char := ls.flatMap fun l => l.text.toList

@[simp] theorem textOf_nil : textOf [] = [] := rfl

@[simp] theorem textOf_cons (l : Lexeme) (ls : List Lexeme) :
    textOf (l :: ls) = l.text.toList ++ textOf ls := rfl

@[simp] theorem textOf_append (xs ys : List Lexeme) :
    textOf (xs ++ ys) = textOf xs ++ textOf ys := List.flatMap_append

theorem toList_join_text (ls : List Lexeme) :
    (String.join (ls.map (·.text))).toList = textOf ls := by
  rw [String.toList_join, List.flatMap_map]
  rfl

namespace Scanner

/-- The scanner before anything of a source is read. -/
def start (source : String) (detailed : Bool := true) : Scanner :=
  { rest := source.toList, detailed }

/-- The scanner with other counts, and another way to go on counting. -/
def counting (s : Scanner) (detailed : Bool) (metrics : Metrics) : Scanner :=
  { s with detailed, metrics }

/-- The lexeme that a cut takes from the text at hand. -/
def lexeme (s : Scanner) (cut : Cut) : Lexeme :=
  ⟨cut.type?, String.ofList (s.rest.take cut.length)⟩

@[simp] theorem lexeme_type? (s : Scanner) (cut : Cut) : (s.lexeme cut).type? = cut.type? := rfl

@[simp] theorem lexeme_text (s : Scanner) (cut : Cut) :
    (s.lexeme cut).text = String.ofList (s.rest.take cut.length) := rfl

@[simp] theorem take_rest (s : Scanner) (cut : Cut) :
    (s.take cut).rest = s.rest.drop cut.length := rfl

@[simp] theorem take_inCode (s : Scanner) (cut : Cut) :
    (s.take cut).inCode = entersCode s.inCode cut.type? := rfl

@[simp] theorem take_nameExpected (s : Scanner) (cut : Cut) :
    (s.take cut).nameExpected = expectsName s.nameExpected (s.lexeme cut) := rfl

@[simp] theorem take_detailed (s : Scanner) (cut : Cut) :
    (s.take cut).detailed = s.detailed := rfl

@[simp] theorem take_lexemes (s : Scanner) (cut : Cut) :
    (s.take cut).lexemes = s.lexemes.push (s.lexeme cut) := rfl

@[simp] theorem take_metrics (s : Scanner) (cut : Cut) :
    (s.take cut).metrics = s.metrics.record s.detailed (s.lexeme cut) := rfl

variable [Limits]

/-- A cut that the scanner takes is the cut of its mode, and there was room for
one more lexeme. -/
theorem next_eq_ok_iff {s : Scanner} {c : Char} {cs : List Char} {cut : Cut} :
    s.next c cs = .ok cut ↔ s.cut c cs = .ok cut ∧ s.lexemes.size < Limits.tokens := by
  unfold next
  split
  · next e he => simp [he]
  · next cut' hcut =>
      rw [hcut]
      split
      · next hfull => simp [Nat.not_lt_of_le hfull]
      · next hroom => simp [Nat.lt_of_not_le hroom]

/-- From `s` the scanner reads the lexemes `ls`, and is `s'` afterwards. -/
inductive Reads : Scanner → List Lexeme → Scanner → Prop where
  | done (s : Scanner) : Reads s [] s
  | more {s s' : Scanner} {c : Char} {cs : List Char} {cut : Cut} {ls : List Lexeme}
      (hrest : s.rest = c :: cs) (hnext : s.next c cs = .ok cut)
      (hreads : Reads (s.take cut) ls s') : Reads s (s.lexeme cut :: ls) s'

/-- Why a scanner reads no more: its text ended, or the next cut fails. -/
def Stops (s : Scanner) : Option LexError → Prop
  | none => s.rest = []
  | some e => ∃ c cs, s.rest = c :: cs ∧ s.next c cs = .error e

namespace Reads

theorem append {s₁ s₂ s₃ : Scanner} {xs ys : List Lexeme} (hx : Reads s₁ xs s₂)
    (hy : Reads s₂ ys s₃) : Reads s₁ (xs ++ ys) s₃ := by
  induction hx with
  | done _ => exact hy
  | more hrest hnext _ ih => exact .more hrest hnext (ih hy)

theorem split {s₁ s₃ : Scanner} {xs ys : List Lexeme} (h : Reads s₁ (xs ++ ys) s₃) :
    ∃ s₂, Reads s₁ xs s₂ ∧ Reads s₂ ys s₃ := by
  induction xs generalizing s₁ with
  | nil => exact ⟨s₁, .done s₁, h⟩
  | cons x xs ih =>
      cases h with
      | more hrest hnext hreads =>
          obtain ⟨s₂, hx, hy⟩ := ih hreads
          exact ⟨s₂, .more hrest hnext hx, hy⟩

/-- The scanner keeps every lexeme that it reads, in order. -/
theorem lexemes_eq {s s' : Scanner} {ls : List Lexeme} (h : Reads s ls s') :
    s'.lexemes.toList = s.lexemes.toList ++ ls := by
  induction h with
  | done s => rw [List.append_nil]
  | more _ _ _ ih =>
      rw [ih, take_lexemes, Array.toList_push, List.append_assoc]
      rfl

theorem size_lexemes {s s' : Scanner} {ls : List Lexeme} (h : Reads s ls s') :
    s'.lexemes.size = s.lexemes.size + ls.length := by
  rw [← Array.length_toList, h.lexemes_eq, List.length_append, Array.length_toList]

/-- What is read is taken from the front of the text. -/
theorem rest_eq {s s' : Scanner} {ls : List Lexeme} (h : Reads s ls s') :
    s.rest = textOf ls ++ s'.rest := by
  induction h with
  | done s => rfl
  | more _ _ _ ih =>
      rw [textOf_cons, lexeme_text, String.toList_ofList, List.append_assoc, ← ih, take_rest,
        List.take_append_drop]

/-- No lexeme is empty. -/
theorem text_ne_empty {s s' : Scanner} {ls : List Lexeme} (h : Reads s ls s') :
    ∀ l ∈ ls, l.text ≠ "" := by
  induction h with
  | done s =>
      intro l hl
      cases hl
  | @more s s' c cs cut ls hrest hnext _ ih =>
      intro l hl
      rcases List.mem_cons.1 hl with rfl | hl
      · have hpos := next_length_pos hnext
        obtain ⟨n, hn⟩ : ∃ n, cut.length = n + 1 := ⟨cut.length - 1, by omega⟩
        intro hempty
        have := congrArg String.toList hempty
        simp [hrest, hn] at this
      · exact ih l hl

/-- Where a lexeme was read: the scanner had read those before it, its next cut
took the lexeme, and it went on to read those behind it. -/
theorem exists_step {s s' : Scanner} {ls : Array Lexeme}
    (h : Reads s ls.toList s') {k : Nat} {l : Lexeme} (hl : ls[k]? = some l) :
    ∃ (t : Scanner) (c : Char) (cs : List Char) (cut : Cut), Reads s (ls.toList.take k) t ∧
      t.rest = c :: cs ∧ t.next c cs = .ok cut ∧ l = t.lexeme cut ∧
      Reads (t.take cut) (ls.toList.drop (k + 1)) s' := by
  rw [← Array.getElem?_toList] at hl
  obtain ⟨hlt, rfl⟩ := List.getElem?_eq_some_iff.1 hl
  rw [← List.take_append_drop k ls.toList, List.drop_eq_getElem_cons hlt] at h
  obtain ⟨t, hbefore, hafter⟩ := h.split
  generalize ls.toList[k] = l at hafter
  cases hafter with
  | more hrest hnext hreads => exact ⟨t, _, _, _, hbefore, hrest, hnext, rfl, hreads⟩

theorem exists_next {s s' : Scanner} {ls : Array Lexeme}
    (h : Reads s ls.toList s') {k : Nat} {l : Lexeme} (hl : ls[k]? = some l) :
    ∃ (t : Scanner) (c : Char) (cs : List Char) (cut : Cut), Reads s (ls.toList.take k) t ∧
      t.rest = c :: cs ∧ t.next c cs = .ok cut ∧ l = t.lexeme cut := by
  obtain ⟨t, c, cs, cut, hbefore, hrest, hnext, hl, -⟩ := h.exists_step hl
  exact ⟨t, c, cs, cut, hbefore, hrest, hnext, hl⟩

/-- The same lexemes are read, whatever is counted. -/
theorem counting {s s' : Scanner} {ls : List Lexeme} (h : Reads s ls s') (detailed : Bool)
    (metrics : Metrics) :
    ∃ metrics', Reads (s.counting detailed metrics) ls (s'.counting detailed metrics') := by
  induction h generalizing metrics with
  | done s => exact ⟨metrics, .done _⟩
  | @more s s' c cs cut ls hrest hnext _ ih =>
      obtain ⟨metrics', hreads⟩ := ih (metrics.record detailed (s.lexeme cut))
      exact ⟨metrics', .more hrest hnext hreads⟩

/-- Nothing is read at the end of the text. -/
theorem eq_nil_of_rest {s s' : Scanner} {ls : List Lexeme} (h : Reads s ls s')
    (hrest : s.rest = []) : ls = [] := by
  cases h with
  | done _ => rfl
  | more hcons _ _ => exact absurd (hrest.symm.trans hcons) (by simp)

end Reads

/-- The lexemes up to the end of the text, if there are fewer than `n`. Unlike
the run itself this computes by unfolding. -/
def readAll? : Nat → Scanner → Option (List Lexeme)
  | 0, _ => none
  | n + 1, s =>
      match s.rest with
      | [] => some []
      | c :: cs =>
          match s.next c cs with
          | .error _ => none
          | .ok cut => (readAll? n (s.take cut)).map (s.lexeme cut :: ·)

theorem reads_of_readAll? {n : Nat} {s : Scanner} {ls : List Lexeme}
    (h : readAll? n s = some ls) : ∃ t, Reads s ls t ∧ t.rest = [] := by
  induction n generalizing s ls with
  | zero => cases h
  | succ n ih =>
      unfold readAll? at h
      split at h
      · next hrest =>
          cases h
          exact ⟨s, .done s, hrest⟩
      · next c cs hrest =>
          split at h
          · cases h
          · next cut hnext =>
              obtain ⟨ls, hls, rfl⟩ := Option.map_eq_some_iff.1 h
              obtain ⟨t, hreads, hend⟩ := ih hls
              exact ⟨t, .more hrest hnext hreads, hend⟩

theorem run_of_rest_eq_nil {s : Scanner} (h : s.rest = []) : s.run = (s, none) := by
  rw [run]
  split
  · rfl
  · next hrest => exact absurd (h.symm.trans hrest) (by simp)

theorem run_of_next_eq_error {s : Scanner} {c : Char} {cs : List Char} {e : LexError}
    (hrest : s.rest = c :: cs) (hnext : s.next c cs = .error e) : s.run = (s, some e) := by
  rw [run]
  split
  · next h => exact absurd (h.symm.trans hrest) (by simp)
  · next c' cs' hrest' =>
      obtain ⟨rfl, rfl⟩ := List.cons.inj (hrest'.symm.trans hrest)
      split
      · next e' hnext' =>
          cases hnext'.symm.trans hnext
          rfl
      · next hnext' => exact absurd (hnext'.symm.trans hnext) (by simp)

theorem run_of_next_eq_ok {s : Scanner} {c : Char} {cs : List Char} {cut : Cut}
    (hrest : s.rest = c :: cs) (hnext : s.next c cs = .ok cut) : s.run = (s.take cut).run := by
  rw [run]
  split
  · next h => exact absurd (h.symm.trans hrest) (by simp)
  · next c' cs' hrest' =>
      obtain ⟨rfl, rfl⟩ := List.cons.inj (hrest'.symm.trans hrest)
      split
      · next hnext' => exact absurd (hnext'.symm.trans hnext) (by simp)
      · next cut' hnext' =>
          cases hnext'.symm.trans hnext
          rfl

theorem run_of_stops {s : Scanner} {e? : Option LexError} (h : s.Stops e?) : s.run = (s, e?) := by
  cases e? with
  | none => exact run_of_rest_eq_nil h
  | some e =>
      obtain ⟨c, cs, hrest, hnext⟩ := h
      exact run_of_next_eq_error hrest hnext

theorem Reads.run_eq {s s' : Scanner} {ls : List Lexeme} (h : Reads s ls s') :
    s.run = s'.run := by
  induction h with
  | done s => rfl
  | more hrest hnext _ ih => exact (run_of_next_eq_ok hrest hnext).trans ih

/-- A run reads some lexemes and then stops. -/
theorem run_spec (s : Scanner) : ∃ ls, Reads s ls s.run.1 ∧ s.run.1.Stops s.run.2 := by
  fun_induction run s with
  | case1 s hrest => exact ⟨[], .done s, hrest⟩
  | case2 s c cs hrest e hnext => exact ⟨[], .done s, c, cs, hrest, hnext⟩
  | case3 s c cs hrest cut hnext ih =>
      obtain ⟨ls, hreads, hstops⟩ := ih
      exact ⟨s.lexeme cut :: ls, .more hrest hnext hreads, hstops⟩

/-- The run, if it takes fewer than `n` lexemes. This too computes by unfolding, and
says of a run that fails where it stands. -/
def runWithin? : Nat → Scanner → Option (Scanner × Option LexError)
  | 0, _ => none
  | n + 1, s =>
      match s.rest with
      | [] => some (s, none)
      | c :: cs =>
          match s.next c cs with
          | .error e => some (s, some e)
          | .ok cut => runWithin? n (s.take cut)

theorem run_eq_of_runWithin? {n : Nat} {s : Scanner} {r : Scanner × Option LexError}
    (h : runWithin? n s = some r) : s.run = r := by
  induction n generalizing s with
  | zero => cases h
  | succ n ih =>
      unfold runWithin? at h
      split at h
      · next hrest =>
          cases h
          exact run_of_rest_eq_nil hrest
      · next c cs hrest =>
          split at h
          · next e hnext =>
              cases h
              exact run_of_next_eq_error hrest hnext
          · next cut hnext => exact (run_of_next_eq_ok hrest hnext).trans (ih h)

/-- Whatever is read up to a place where the scanner stops is the run. -/
theorem run_eq_of_reads {s s' : Scanner} {ls : List Lexeme} {e? : Option LexError}
    (hreads : Reads s ls s') (hstops : s'.Stops e?) : s.run = (s', e?) :=
  hreads.run_eq.trans (run_of_stops hstops)

end Scanner

open Scanner

variable [Limits]

/-- Cutting a source reads the lexemes of the outcome, and stops for its
reason. -/
theorem scan_reads (source : String) (detailed : Bool := true) :
    ∃ s, Reads (start source detailed) (scan source detailed).lexemes.toList s ∧
      s.Stops (scan source detailed).error? ∧ s.position = (scan source detailed).position ∧
      s.metrics = (scan source detailed).metrics := by
  obtain ⟨ls, hreads, hstops⟩ := run_spec (start source detailed)
  have hls : (scan source detailed).lexemes.toList = ls := hreads.lexemes_eq
  rw [hls]
  exact ⟨(start source detailed).run.1, hreads, hstops, rfl, rfl⟩

theorem scan_eq_of_reads {source : String} {detailed : Bool} {ls : List Lexeme} {s : Scanner}
    {e? : Option LexError} (hreads : Reads (start source detailed) ls s) (hstops : s.Stops e?) :
    scan source detailed = ⟨ls.toArray, s.position, e?, s.metrics⟩ := by
  have hrun : Scanner.run { rest := source.toList, detailed } = (s, e?) :=
    run_eq_of_reads hreads hstops
  have hls : s.lexemes = ls.toArray := by
    rw [← Array.toList_inj, hreads.lexemes_eq]
    rfl
  simp only [scan, hrun, hls]

/-- But for the counts, a source is cut the same way however it is counted. -/
theorem scan_detailed (source : String) (detailed : Bool) :
    scan source detailed = ⟨(scan source).lexemes, (scan source).position,
      (scan source).error?, (scan source detailed).metrics⟩ := by
  obtain ⟨s, hreads, hstops, hposition, -⟩ := scan_reads source
  obtain ⟨metrics, hcounting⟩ := hreads.counting detailed {}
  have hstops' : (s.counting detailed metrics).Stops (scan source).error? := by
    cases he : (scan source).error? with
    | none => exact he ▸ hstops
    | some e => exact he ▸ hstops
  have hscan : scan source detailed = _ := scan_eq_of_reads hcounting hstops'
  rw [hscan, ← hposition, Array.toArray_toList]
  rfl

theorem tokenize_value (lexer : Lexer) (source : String) :
    (lexer.tokenize source).2.value =
      match (scan source).error? with
      | some e => .error e
      | none => .ok (scan source).lexemes := by
  have hscan := scan_detailed source lexer.preferences.detailedMetrics
  have herror := congrArg Outcome.error? hscan
  have hlexemes := congrArg Outcome.lexemes hscan
  cases he : (scan source).error? with
  | none => simp only [tokenize, herror, hlexemes, he]
  | some e => simp only [tokenize, herror, he]

/-- A source is cut into some lexemes just if they can be read and then nothing
is left. -/
theorem tokenize_eq_ok_iff {lexer : Lexer} {source : String} {ls : Array Lexeme} :
    (lexer.tokenize source).2.value = .ok ls ↔
      ∃ s, Reads (start source) ls.toList s ∧ s.rest = [] := by
  constructor
  · intro h
    obtain ⟨s, hreads, hstops, -⟩ := scan_reads source
    rw [tokenize_value] at h
    split at h
    · cases h
    · next hnone =>
        cases h
        rw [hnone] at hstops
        exact ⟨s, hreads, hstops⟩
  · intro h
    obtain ⟨s, hreads, hrest⟩ := h
    have hstops : s.Stops none := hrest
    rw [tokenize_value, scan_eq_of_reads hreads hstops]

theorem tokenize_eq_ok_of_readAll? {lexer : Lexer} {source : String} {ls : Array Lexeme}
    (n : Nat) (h : readAll? n (start source) = some ls.toList) :
    (lexer.tokenize source).2.value = .ok ls :=
  tokenize_eq_ok_iff.2 (reads_of_readAll? h)

theorem scan_eq_of_runWithin? {source : String} {detailed : Bool} {s : Scanner}
    {e? : Option LexError} (n : Nat) (h : runWithin? n (start source detailed) = some (s, e?)) :
    scan source detailed = ⟨s.lexemes, s.position, e?, s.metrics⟩ := by
  have hrun : Scanner.run { rest := source.toList, detailed } = (s, e?) :=
    run_eq_of_runWithin? h
  simp only [scan, hrun]

/-- A source is refused with an error just if some lexemes can be read and the
next cut fails with it; those lexemes are the ones of the outcome. -/
theorem tokenize_eq_error_iff {lexer : Lexer} {source : String} {e : LexError} :
    (lexer.tokenize source).2.value = .error e ↔
      ∃ s, Reads (start source) (scan source).lexemes.toList s ∧ s.Stops (some e) := by
  constructor
  · intro h
    obtain ⟨s, hreads, hstops, -⟩ := scan_reads source
    rw [tokenize_value] at h
    split at h
    · next e' hsome =>
        cases h
        rw [hsome] at hstops
        exact ⟨s, hreads, hstops⟩
    · cases h
  · intro h
    obtain ⟨s, hreads, hstops⟩ := h
    have herror : (scan source).error? = some e :=
      congrArg Outcome.error? (scan_eq_of_reads hreads hstops)
    rw [tokenize_value, herror]

end PhpTokens.Lexer
