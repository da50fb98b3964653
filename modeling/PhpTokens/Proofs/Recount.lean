import PhpTokens.Proofs.CodeRule
import PhpTokens.Proofs.Lookup
import PhpTokens.Proofs.Reads
import PhpTokens.Proofs.Representation

/-!
# The counts of a run are the counts of its lexemes

The scanner keeps its metrics up lexeme by lexeme, each adding to some of the
counters. `IsRecount` says what they must come to, without that history: lengths,
numbers of lexemes of a type, longest texts, and a table of the reserved words in
use, all read off the list of lexemes. That the counts of a scanner are those of
the lexemes that it holds is true at the start, stays true with each lexeme taken
(`Counted.take`) and so wherever a run comes to (`Counted.reads`), the end of the
source or a failure.

The lexer takes over the counts of its scanner, which leaves no way for an earlier
run to show. It also makes the number of significant lexemes, which is a difference
of counters, the number of indices that a sequence of the same lexemes stores: both
leave out the types of the usual trivia, and each lexeme is of one type
(`countP_trivia`).
-/

namespace PhpTokens

/-- The reserved word that a lexeme was read as. -/
def Lexeme.keyword? (l : Lexeme) : Option Keyword := l.type?.bind TokenType.keyword?

/-- The operator that a lexeme was read as. -/
def Lexeme.operator? (l : Lexeme) : Option Operator := l.type?.bind TokenType.operator?

theorem Keyword.find?_spelling (k : Keyword) :
    all.find? (fun j => j.spelling = k.spelling) = some k := by
  have hall : all.all (fun k => all.find? (fun j => j.spelling = k.spelling) == some k) = true := by
    decide +kernel
  exact eq_of_beq (List.all_eq_true.1 hall k k.mem_all)

theorem Keyword.spelling_inj {j k : Keyword} : j.spelling = k.spelling ↔ j = k := by
  refine ⟨fun h => ?_, congrArg spelling⟩
  have hj := j.find?_spelling
  rw [h, k.find?_spelling] at hj
  exact (Option.some.inj hj).symm

namespace Lexer

namespace Metrics

/-! ## The table of reserved words -/

/-- A table by spelling. -/
def spelled (table : List (Keyword × Nat)) : List (String × Nat) :=
  table.map fun e => (e.1.spelling, e.2)

/-- All the uses in a table. -/
def uses : List (String × Nat) → Nat
  | [] => 0
  | e :: table => e.2 + uses table

/-- The table says of each spelling how often its word occurs, and has no other entries. -/
structure IsTally (words : List Keyword) (table : List (Keyword × Nat)) : Prop where
  lookup_eq : ∀ k, (spelled table).lookup k.spelling =
    if k ∈ words then some (words.count k) else none
  nodup : ((spelled table).map (·.1)).Nodup
  uses_eq : uses (spelled table) = words.length

theorem lookup_spelled_cons (j : Keyword) (e : Keyword × Nat) (table : List (Keyword × Nat)) :
    (spelled (e :: table)).lookup j.spelling =
      if j = e.1 then some e.2 else (spelled table).lookup j.spelling := by
  rw [spelled, List.map_cons, lookup_cons_eq_ite]
  simp only [Keyword.spelling_inj]
  rfl

theorem lookup_countUse (j k : Keyword) (table : List (Keyword × Nat)) :
    (spelled (countUse k table)).lookup j.spelling =
      if j = k then some (((spelled table).lookup k.spelling).getD 0 + 1)
      else (spelled table).lookup j.spelling := by
  induction table with
  | nil => exact lookup_spelled_cons j (k, 1) []
  | cons e table ih =>
      rw [countUse]
      by_cases hik : e.1 = k
      · rw [if_pos hik, lookup_spelled_cons, lookup_spelled_cons, lookup_spelled_cons]
        by_cases hj : j = k <;> simp [hik, hj]
      · rw [if_neg hik, lookup_spelled_cons, lookup_spelled_cons, lookup_spelled_cons, ih]
        by_cases hj : j = e.1 <;> simp [hik, hj, Ne.symm hik]

theorem map_fst_countUse (k : Keyword) (table : List (Keyword × Nat)) :
    (countUse k table).map (·.1) =
      if k ∈ table.map (·.1) then table.map (·.1) else table.map (·.1) ++ [k] := by
  induction table with
  | nil => rfl
  | cons e table ih =>
      rw [countUse]
      by_cases hik : e.1 = k
      · simp [hik]
      · rw [if_neg hik, List.map_cons, ih, List.map_cons]
        split <;> simp_all [Ne.symm hik]

theorem uses_countUse (k : Keyword) (table : List (Keyword × Nat)) :
    uses (spelled (countUse k table)) = uses (spelled table) + 1 := by
  induction table with
  | nil => rfl
  | cons e table ih =>
      have hcons : ∀ e table, uses (spelled (e :: table)) = e.2 + uses (spelled table) :=
        fun e table => rfl
      rw [countUse]
      split
      · rw [hcons, hcons]
        show e.2 + 1 + uses (spelled table) = _
        omega
      · rw [hcons, hcons, ih]
        omega

theorem nodup_spelled_iff (table : List (Keyword × Nat)) :
    ((spelled table).map (·.1)).Nodup ↔ (table.map (·.1)).Nodup := by
  simp only [spelled, List.Nodup, List.pairwise_map, ne_eq, Keyword.spelling_inj]

theorem isTally_nil : IsTally [] [] where
  lookup_eq := fun _ => rfl
  nodup := List.Pairwise.nil
  uses_eq := rfl

theorem IsTally.countUse {words : List Keyword} {table : List (Keyword × Nat)}
    (h : IsTally words table) (k : Keyword) :
    IsTally (words ++ [k]) (Metrics.countUse k table) where
  lookup_eq := by
    intro j
    rw [lookup_countUse, h.lookup_eq, h.lookup_eq, List.count_append, List.count_singleton]
    by_cases hjk : j = k
    · subst hjk
      by_cases hj : j ∈ words
      · simp [hj]
      · simp [hj, List.count_eq_zero_of_not_mem hj]
    · simp [hjk, Ne.symm hjk]
  nodup := by
    have hkeys := (nodup_spelled_iff table).1 h.nodup
    rw [nodup_spelled_iff, map_fst_countUse]
    split
    · exact hkeys
    · next hk =>
        refine List.pairwise_append.2 ⟨hkeys, List.pairwise_singleton _ _, ?_⟩
        intro a ha b hb hab
        exact hk (List.mem_singleton.1 hb ▸ hab ▸ ha)
  uses_eq := by
    rw [uses_countUse, h.uses_eq, List.length_append]
    rfl

theorem IsTally.eq_nil {table : List (Keyword × Nat)} (h : IsTally [] table) : table = [] := by
  cases table with
  | nil => rfl
  | cons e table =>
      have he := h.lookup_eq e.1
      rw [lookup_spelled_cons, if_pos rfl] at he
      cases he

/-! ## The counters -/

/-- Bytes of the longest of some lexemes, zero if there are none. -/
def longest (ls : List Lexeme) : Nat := (ls.map (·.text.utf8ByteSize)).max?.getD 0

/-- What the counters must come to for some lexemes. -/
structure IsRecount (detailed : Bool) (ls : List Lexeme) (m : Metrics) : Prop where
  total : m.total = ls.length
  keywords : m.keywords = ls.countP (·.keyword?.isSome)
  identifiers : m.identifiers = ls.countP (·.type? = some .identifier)
  operators : m.operators = ls.countP (·.operator?.isSome)
  bare : m.bare = ls.countP (·.type? = none)
  whitespace : m.whitespace = ls.countP (·.type? = some .whitespace)
  comments : m.comments = ls.countP (·.type? = some .comment)
  docComments : m.docComments = ls.countP (·.type? = some .docComment)
  longestString : m.longestString = longest (ls.filter (·.type? = some .stringLiteral))
  longestComment : m.longestComment =
    longest (ls.filter fun l => l.type? = some .comment ∨ l.type? = some .docComment)
  usage : IsTally (if detailed then ls.filterMap (·.keyword?) else []) m.usage

theorem longest_cons (l : Lexeme) (ls : List Lexeme) :
    longest (l :: ls) = max l.text.utf8ByteSize (longest ls) := by
  rw [longest, List.map_cons, List.max?_cons, longest]
  cases (ls.map (·.text.utf8ByteSize)).max? with
  | none => exact (Nat.max_zero _).symm
  | some n => rfl

theorem longest_append (xs ys : List Lexeme) :
    longest (xs ++ ys) = max (longest xs) (longest ys) := by
  induction xs with
  | nil => exact (Nat.zero_max _).symm
  | cons l xs ih => rw [List.cons_append, longest_cons, ih, longest_cons, Nat.max_assoc]

/-- One lexeme adds to every counter what it would count for by itself. -/
theorem record_eq (detailed : Bool) (m : Metrics) (l : Lexeme) :
    record detailed m l =
      { total := m.total + 1
        keywords := m.keywords + [l].countP (·.keyword?.isSome)
        identifiers := m.identifiers + [l].countP (·.type? = some .identifier)
        operators := m.operators + [l].countP (·.operator?.isSome)
        bare := m.bare + [l].countP (·.type? = none)
        whitespace := m.whitespace + [l].countP (·.type? = some .whitespace)
        comments := m.comments + [l].countP (·.type? = some .comment)
        docComments := m.docComments + [l].countP (·.type? = some .docComment)
        longestString :=
          max m.longestString (longest ([l].filter (·.type? = some .stringLiteral)))
        longestComment :=
          max m.longestComment
            (longest ([l].filter fun l => l.type? = some .comment ∨ l.type? = some .docComment))
        invalidCharacters := m.invalidCharacters
        usage := if detailed then l.keyword?.elim m.usage (countUse · m.usage) else m.usage } := by
  obtain ⟨type?, text⟩ := l
  cases type? with
  | none => simp [record, longest, Lexeme.keyword?, Lexeme.operator?]
  | some type =>
      cases type <;>
        simp [record, longest, Lexeme.keyword?, Lexeme.operator?, TokenType.keyword?,
          TokenType.operator?]

theorem isRecount_nil (detailed : Bool) : IsRecount detailed [] {} where
  total := rfl
  keywords := rfl
  identifiers := rfl
  operators := rfl
  bare := rfl
  whitespace := rfl
  comments := rfl
  docComments := rfl
  longestString := rfl
  longestComment := rfl
  usage := by
    rw [List.filterMap_nil, ite_self]
    exact isTally_nil

namespace IsRecount

variable {detailed : Bool} {ls : List Lexeme} {m : Metrics}

/-- What is right of some lexemes is right of them and one more. -/
theorem record (h : IsRecount detailed ls m) (l : Lexeme) :
    IsRecount detailed (ls ++ [l]) (m.record detailed l) := by
  rw [record_eq]
  exact
    { total := by rw [List.length_append, ← h.total]; rfl
      keywords := by rw [List.countP_append, ← h.keywords]
      identifiers := by rw [List.countP_append, ← h.identifiers]
      operators := by rw [List.countP_append, ← h.operators]
      bare := by rw [List.countP_append, ← h.bare]
      whitespace := by rw [List.countP_append, ← h.whitespace]
      comments := by rw [List.countP_append, ← h.comments]
      docComments := by rw [List.countP_append, ← h.docComments]
      longestString := by rw [List.filter_append, longest_append, ← h.longestString]
      longestComment := by rw [List.filter_append, longest_append, ← h.longestComment]
      usage := by
        have husage := h.usage
        cases detailed with
        | false => exact husage
        | true =>
            cases hl : l.keyword? with
            | none => simpa [hl] using husage
            | some k => simpa [hl] using husage.countUse k }

theorem uses_usage (h : IsRecount true ls m) : uses (spelled m.usage) = m.keywords := by
  rw [h.usage.uses_eq, h.keywords, if_pos rfl, List.length_filterMap_eq_countP]

/-- Nothing else is asked of the number of invalid characters. -/
theorem withInvalid (h : IsRecount detailed ls m) (n : Nat) :
    IsRecount detailed ls { m with invalidCharacters := n } :=
  ⟨h.total, h.keywords, h.identifiers, h.operators, h.bare, h.whitespace, h.comments,
    h.docComments, h.longestString, h.longestComment, h.usage⟩

end IsRecount

end Metrics

/-! ## Along a run -/

namespace Scanner

/-- The counts of a scanner are those of the lexemes that it holds. -/
structure Counted (s : Scanner) : Prop where
  recount : s.metrics.IsRecount s.detailed s.lexemes.toList
  noInvalid : s.metrics.invalidCharacters = 0

namespace Counted

theorem start (source : String) (detailed : Bool) : Counted (Scanner.start source detailed) where
  recount := Metrics.isRecount_nil detailed
  noInvalid := rfl

theorem take {s : Scanner} (h : Counted s) (cut : Cut) : Counted (s.take cut) where
  recount := by
    rw [take_metrics, take_detailed, take_lexemes, Array.toList_push]
    exact h.recount.record (s.lexeme cut)
  noInvalid := by
    rw [take_metrics, Metrics.record_eq]
    exact h.noInvalid

theorem reads [Limits] {s s' : Scanner} {ls : List Lexeme} (h : Counted s)
    (hreads : Reads s ls s') : Counted s' := by
  induction hreads with
  | done _ => exact h
  | more _ _ _ ih => exact ih (h.take _)

end Counted

theorem Reads.detailed_eq [Limits] {s s' : Scanner} {ls : List Lexeme} (h : Reads s ls s') :
    s'.detailed = s.detailed := by
  induction h with
  | done _ => rfl
  | more _ _ _ ih => exact ih

/-- The counts depend on nothing but the lexemes and the counts before them. -/
theorem Reads.metrics_eq [Limits] {s s' : Scanner} {ls : List Lexeme} (h : Reads s ls s') :
    s'.metrics = ls.foldl (Metrics.record s.detailed) s.metrics := by
  induction h with
  | done _ => rfl
  | more _ _ _ ih => exact ih

end Scanner

open Scanner

/-- The outcome of a run has the counts of its lexemes. -/
theorem scan_isRecount [Limits] (source : String) (detailed : Bool) :
    (scan source detailed).metrics.IsRecount detailed (scan source detailed).lexemes.toList ∧
      (scan source detailed).metrics.invalidCharacters = 0 := by
  obtain ⟨s, hreads, -, -, hmetrics⟩ := scan_reads source detailed
  have hcounted := (Counted.start source detailed).reads hreads
  have hrecount := hcounted.recount
  rw [hreads.detailed_eq, hreads.lexemes_eq, hmetrics] at hrecount
  exact ⟨hrecount, hmetrics ▸ hcounted.noInvalid⟩

theorem scan_metrics_eq [Limits] (source : String) (detailed : Bool) :
    (scan source detailed).metrics =
      (scan source detailed).lexemes.toList.foldl (Metrics.record detailed) {} := by
  obtain ⟨s, hreads, -, -, hmetrics⟩ := scan_reads source detailed
  exact hmetrics.symm.trans hreads.metrics_eq

/-- The lexer takes over the counts of its run, and counts the character if it failed for
one. -/
theorem tokenize_metrics [Limits] (lexer : Lexer) (source : String) :
    (lexer.tokenize source).1.metrics =
      { (scan source lexer.preferences.detailedMetrics).metrics with
        invalidCharacters :=
          match (lexer.tokenize source).2.value with
          | .error (.invalidCharacter ..) => 1
          | _ => 0 } := by
  have hzero := (scan_isRecount source lexer.preferences.detailedMetrics).2
  simp only [tokenize]
  generalize scan source lexer.preferences.detailedMetrics = outcome at hzero ⊢
  obtain ⟨lexemes, position, error?, metrics⟩ := outcome
  replace hzero : metrics.invalidCharacters = 0 := hzero
  have hsame : metrics = { metrics with invalidCharacters := 0 } := by rw [← hzero]
  cases error? with
  | none => exact hsame
  | some e =>
      cases e with
      | invalidCharacter => simp only [Metrics.recordInvalid, hzero]
      | _ => exact hsame

/-! ## Significant lexemes -/

theorem size_significant (lexemes : Array Lexeme) (trivia : TriviaSet) :
    (Sequence.assemble lexemes trivia).significant.size =
      lexemes.toList.countP fun l => !trivia.contains (l.type?.getD .identifier) := by
  have htypes : (Sequence.assemble lexemes trivia).tokens.toList.map Token.type =
      lexemes.toList.map fun l => l.type?.getD .identifier :=
    Sequence.assemble_map (fun _ _ => rfl) lexemes trivia
  have hcount := congrArg (List.countP fun type => !trivia.contains type) htypes
  rw [List.countP_map, List.countP_map] at hcount
  show (Sequence.significantIndices trivia (Sequence.assemble lexemes trivia).tokens).size = _
  rw [Sequence.significantIndices, Array.size_map, ← Array.length_toList, Array.toList_filter,
    ← List.countP_eq_length_filter]
  exact hcount

theorem contains_default (type : TokenType) : TriviaSet.default.contains type = type.isTrivia := by
  cases type <;> rfl

theorem countP_trivia (ls : List Lexeme) :
    ls.countP (fun l => !TriviaSet.default.contains (l.type?.getD .identifier)) +
      (ls.countP (·.type? = some .whitespace) + ls.countP (·.type? = some .comment) +
        ls.countP (·.type? = some .docComment)) = ls.length := by
  induction ls with
  | nil => rfl
  | cons l ls ih =>
      have hone :
          (if (!TriviaSet.default.contains (l.type?.getD .identifier)) = true then 1 else 0) +
          ((if l.type? = some .whitespace then 1 else 0) +
            (if l.type? = some .comment then 1 else 0) +
            (if l.type? = some .docComment then 1 else 0)) = 1 := by
        rw [contains_default]
        cases l.type? with
        | none => rfl
        | some type => cases type <;> simp [TokenType.isTrivia]
      simp only [List.countP_cons, List.length_cons, decide_eq_true_eq]
      omega

theorem Metrics.IsRecount.significant_eq {detailed : Bool} {ls : Array Lexeme} {m : Metrics}
    (h : m.IsRecount detailed ls.toList) :
    m.whitespace + m.comments + m.docComments ≤ m.total ∧
      m.significant = (Sequence.ofLexemes ls).significant.size := by
  have hparts := countP_trivia ls.toList
  rw [← h.whitespace, ← h.comments, ← h.docComments, ← h.total] at hparts
  rw [Sequence.ofLexemes, size_significant, Metrics.significant]
  omega

/-- The metrics after a run, whatever the lexer did before, are counts of the lexemes of that
run alone: of those it answers with, or of those it read before it failed. The difference that
gives the number of significant ones is a true one, and the number is that of the sequence of
the same lexemes. Two runs that read the same lexemes count the same, invalid characters
apart. -/
theorem tokenize_metrics_recount [Limits] (lexer : Lexer) (source : String) :
    let detailed := lexer.preferences.detailedMetrics
    let emitted := (scan source detailed).lexemes
    let result := (lexer.tokenize source).2.value
    let m := (lexer.tokenize source).1.metrics
    (∀ ls, result = .ok ls → ls = emitted) ∧
      (∀ e, result = .error e →
        ∃ s, Reads (start source detailed) emitted.toList s ∧ s.Stops (some e)) ∧
      m.IsRecount detailed emitted.toList ∧
      (if detailed then Metrics.uses (Metrics.spelled m.usage) = m.keywords else m.usage = []) ∧
      (m.invalidCharacters =
        match result with
        | .error (.invalidCharacter ..) => 1
        | _ => 0) ∧
      m.whitespace + m.comments + m.docComments ≤ m.total ∧
      m.significant = (Sequence.ofLexemes emitted).significant.size ∧
      ∀ (lexer' : Lexer) (source' : String), lexer'.preferences.detailedMetrics = detailed →
        (scan source' detailed).lexemes = emitted →
        { (lexer'.tokenize source').1.metrics with invalidCharacters := 0 } =
          { m with invalidCharacters := 0 } := by
  intro detailed emitted result m
  have hrecount : m.IsRecount detailed emitted.toList := by
    simp only [m, tokenize_metrics]
    exact (scan_isRecount source detailed).1.withInvalid _
  refine ⟨?_, ?_, hrecount, ?_, ?_, hrecount.significant_eq.1, hrecount.significant_eq.2, ?_⟩
  · intro ls hls
    simp only [result, tokenize] at hls
    split at hls
    · cases hls
    · exact (Except.ok.inj hls).symm
  · intro e he
    obtain ⟨s, hreads, hstops, -⟩ := scan_reads source detailed
    simp only [result, tokenize] at he
    split at he
    · next e' hsome =>
        cases he
        rw [hsome] at hstops
        exact ⟨s, hreads, hstops⟩
    · cases he
  · cases hdetailed : detailed with
    | true =>
        rw [hdetailed] at hrecount
        exact hrecount.uses_usage
    | false =>
        rw [hdetailed] at hrecount
        exact hrecount.usage.eq_nil
  · simp only [m, tokenize_metrics]
    rfl
  · intro lexer' source' hdetailed hemitted
    have hmetrics : (scan source' detailed).metrics = (scan source detailed).metrics := by
      rw [scan_metrics_eq, scan_metrics_eq, hemitted]
    simp only [m, tokenize_metrics, hdetailed]
    rw [hmetrics]

/-- A lexer that has read a string and another reserved word before counts neither. -/
theorem tokenize_metrics_recount_reused :
    let used := (Lexer.tokenize {} "<?php echo 'a';").1
    let ls : Array Lexeme :=
      #[.typed .openTag "<?php ", .typed .comment "// b\n", .typed (.keyword .kwIf) "If"]
    (used.tokenize "<?php // b\nIf").2.value = .ok ls ∧
      (used.tokenize "<?php // b\nIf").1.metrics.IsRecount true ls.toList ∧
      (used.tokenize "<?php // b\nIf").1.metrics.significant = 2 ∧
      { (used.tokenize "<?php // b\nIf").1.metrics with invalidCharacters := 0 } =
        { (Lexer.tokenize {} "<?php // b\nIf").1.metrics with invalidCharacters := 0 } := by
  intro used ls
  have hok : (used.tokenize "<?php // b\nIf").2.value = .ok ls :=
    tokenize_eq_ok_of_readAll? 4 (by decide)
  obtain ⟨hemitted, -, hrecount, -, -, -, hsignificant, hsame⟩ :=
    tokenize_metrics_recount used "<?php // b\nIf"
  have hls := hemitted ls hok
  rw [← hls] at hrecount hsignificant
  have hsize : (Sequence.ofLexemes ls).significant.size = 2 := by
    rw [Sequence.ofLexemes, size_significant]
    decide
  refine ⟨hok, hrecount, hsignificant.trans hsize, ?_⟩
  exact (hsame {} "<?php // b\nIf" rfl rfl).symm

end Lexer

end PhpTokens
