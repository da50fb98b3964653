import PhpTokens.Proofs.LetterCase
import PhpTokens.Proofs.Reads

/-!
# Sources that differ in the case of letters

To lower a source is to lower its lexemes: where no heredoc may begin, cutting
commutes with lowering, lexeme by lexeme (`Scanner.next_lowered`,
`Scanner.take_lowered`) and so run by run (`Scanner.run_lowered`). Two sources
that differ only in the case of letters have one lowered source between them,
and each agrees with that one.

The counts of a run ask a lexeme for its type and its number of bytes, which
lowering leaves alone.
-/

namespace PhpTokens

/-- Equal but for the case of ASCII letters. -/
def SameButCase (x y : String) : Prop := x.toList.map Char.toLower = y.toList.map Char.toLower

instance (x y : String) : Decidable (SameButCase x y) :=
  inferInstanceAs (Decidable (x.toList.map Char.toLower = y.toList.map Char.toLower))

/-- The same lexeme in small letters. -/
def Lexeme.lowered (l : Lexeme) : Lexeme :=
  ⟨l.type?, String.ofList (l.text.toList.map Char.toLower)⟩

@[simp] theorem Lexeme.lowered_type? (l : Lexeme) : l.lowered.type? = l.type? := rfl

theorem Lexeme.lowered_eq_lowered_iff {l l' : Lexeme} :
    l.lowered = l'.lowered ↔ l.type? = l'.type? ∧ SameButCase l.text l'.text := by
  rw [lowered, lowered, Lexeme.mk.injEq, String.ofList_inj]
  rfl

theorem Lexeme.getElem_of_map_lowered_eq {ls ls' : Array Lexeme}
    (h : ls.map lowered = ls'.map lowered) {i : Nat} (hi : i < ls.size) (hi' : i < ls'.size) :
    ls[i].type? = ls'[i].type? ∧ SameButCase ls[i].text ls'[i].text := by
  have hget := congrArg (·[i]?) h
  simp only [Array.getElem?_map, Array.getElem?_eq_getElem hi, Array.getElem?_eq_getElem hi',
    Option.map_some, Option.some.injEq] at hget
  exact lowered_eq_lowered_iff.1 hget

namespace Lexer

open Scanner

theorem Metrics.record_lowered (detailed : Bool) (m : Metrics) (l : Lexeme) :
    record detailed m l.lowered = record detailed m l := by
  have hsize : l.lowered.text.utf8ByteSize = l.text.utf8ByteSize := by
    rw [Lexeme.lowered, ← Text.byteLength_eq_utf8ByteSize, byteLength_map_toLower,
      Text.byteLength_eq_utf8ByteSize, String.ofList_toList]
  simp only [record, Lexeme.lowered_type?, hsize]

namespace Scanner

/-- The same state of a run in small letters. -/
def lowered (s : Scanner) : Scanner :=
  { s with rest := s.rest.map Char.toLower, lexemes := s.lexemes.map Lexeme.lowered }

@[simp] theorem lowered_rest (s : Scanner) : s.lowered.rest = s.rest.map Char.toLower := rfl

@[simp] theorem lowered_lexemes (s : Scanner) :
    s.lowered.lexemes = s.lexemes.map Lexeme.lowered := rfl

theorem lexeme_lowered (s : Scanner) (cut : Cut) :
    s.lowered.lexeme cut = (s.lexeme cut).lowered := by
  simp only [lexeme, lowered_rest, Lexeme.lowered, String.toList_ofList, List.map_take]

/-- The one text that is asked for has no letter in it. -/
theorem expectsName_lowered (before : Bool) (l : Lexeme) :
    expectsName before l.lowered = expectsName before l := by
  have hreference : l.lowered.text = "&" ↔ l.text = "&" := by
    rw [← String.toList_inj, ← String.toList_inj, Lexeme.lowered, String.toList_ofList]
    exact map_toLower_eq_iff (by decide)
  simp only [expectsName, Lexeme.lowered_type?, hreference]

theorem take_lowered (s : Scanner) (cut : Cut) : s.lowered.take cut = (s.take cut).lowered := by
  have hposition : s.position.advanceBy ((s.rest.map Char.toLower).take cut.length) =
      s.position.advanceBy (s.rest.take cut.length) := by
    rw [← List.map_take, advanceBy_map_toLower]
  have hname : expectsName s.nameExpected (s.lowered.lexeme cut) =
      expectsName s.nameExpected (s.lexeme cut) := by
    rw [lexeme_lowered, expectsName_lowered]
  have hlexemes : (s.lexemes.map Lexeme.lowered).push (s.lowered.lexeme cut) =
      (s.lexemes.push (s.lexeme cut)).map Lexeme.lowered := by
    rw [lexeme_lowered, Array.map_push]
  have hmetrics : s.metrics.record s.detailed (s.lowered.lexeme cut) =
      s.metrics.record s.detailed (s.lexeme cut) := by
    rw [lexeme_lowered, Metrics.record_lowered]
  exact (Scanner.mk.injEq ..).mpr
    ⟨List.map_drop.symm, hposition, rfl, hname, rfl, hlexemes, hmetrics⟩

/-- Without a heredoc the next cut is the same, whether it succeeds or fails. -/
theorem next_lowered [Limits] {s : Scanner} {c : Char} {cs : List Char}
    (hopen : ¬ ['<', '<', '<'] <+: c :: cs) :
    s.lowered.next c.toLower (cs.map Char.toLower) = s.next c cs := by
  have hcut : s.lowered.cut c.toLower (cs.map Char.toLower) = s.cut c cs := by
    have hcode := ((cutCode_rule s.position s.nameExpected c cs).map_toLower hopen).eq
    have htemplate := cutTemplate_map_toLower (c :: cs)
    rw [List.map_cons] at htemplate
    simp only [cut, lowered, hcode, htemplate]
  simp only [next, hcut, lowered_lexemes, Array.size_map]

theorem run_lowered [Limits] {s : Scanner} (hopen : ¬ ['<', '<', '<'] <:+: s.rest) :
    s.lowered.run = (s.run.1.lowered, s.run.2) := by
  -- Along the run of `s`; that no heredoc may begin is true of every rest.
  fun_induction Scanner.run s with
  | case1 s hrest => exact run_of_rest_eq_nil (by rw [lowered_rest, hrest, List.map_nil])
  | case2 s c cs hrest e hnext =>
      have hhead := mt List.IsPrefix.isInfix (hrest ▸ hopen)
      refine run_of_next_eq_error ?_ ((next_lowered hhead).trans hnext)
      rw [lowered_rest, hrest, List.map_cons]
  | case3 s c cs hrest cut hnext ih =>
      have hhead := mt List.IsPrefix.isInfix (hrest ▸ hopen)
      have hrest' : ¬ ['<', '<', '<'] <:+: (s.take cut).rest := by
        rw [take_rest]
        exact fun h => hopen (h.trans (List.drop_suffix _ _).isInfix)
      rw [run_of_next_eq_ok _ ((next_lowered hhead).trans hnext), take_lowered, ih hrest']
      rw [lowered_rest, hrest, List.map_cons]

end Scanner

/-- The same outcome in small letters. -/
def Outcome.lowered (o : Outcome) : Outcome :=
  { o with lexemes := o.lexemes.map Lexeme.lowered }

theorem scan_map_toLower [Limits] {source : String} (hopen : ¬ ['<', '<', '<'] <:+: source.toList)
    (detailed : Bool) :
    scan (String.ofList (source.toList.map Char.toLower)) detailed =
      (scan source detailed).lowered := by
  have hstart : (start source detailed).lowered =
      { rest := source.toList.map Char.toLower, detailed } := by
    simp [Scanner.lowered, start]
  have hrun := Scanner.run_lowered (s := start source detailed) hopen
  rw [hstart] at hrun
  simp only [scan, String.toList_ofList, hrun]
  rfl

theorem infix_of_map_toLower {cs : List Char}
    (h : ['<', '<', '<'] <:+: cs.map Char.toLower) : ['<', '<', '<'] <:+: cs := by
  obtain ⟨x, y, hxy⟩ := h
  obtain ⟨t, y', rfl, ht, -⟩ := List.map_eq_append_iff.1 hxy.symm
  obtain ⟨x', mark, rfl, -, hmark⟩ := List.map_eq_append_iff.1 ht
  obtain rfl := (map_toLower_eq_iff (by decide)).1 hmark
  exact ⟨x', y', rfl⟩

/-- Both sources agree with the one lowered source. -/
theorem scan_lowered_eq [Limits] {source source' : String} (h : SameButCase source source')
    (hopen : ¬ ['<', '<', '<'] <:+: source.toList) (detailed : Bool) :
    (scan source detailed).lowered = (scan source' detailed).lowered := by
  have hopen' : ¬ ['<', '<', '<'] <:+: source'.toList := by
    intro hmark
    have hlower : ['<', '<', '<'] <:+: source'.toList.map Char.toLower := hmark.map Char.toLower
    rw [← h] at hlower
    exact hopen (infix_of_map_toLower hlower)
  rw [← scan_map_toLower hopen, h, scan_map_toLower hopen']

/-- Sources that differ only in the case of letters fail with the same error, or
have as many lexemes, of the same types, whose texts differ only in the case of
letters; and the counts are the same. A heredoc would be an exception, since its
label closes it in one case only. -/
theorem tokenize_caseInsensitive [Limits] {lexer lexer' : Lexer}
    (hpreferences : lexer.preferences = lexer'.preferences) {source source' : String}
    (hcase : SameButCase source source') (hopen : ¬ ['<', '<', '<'] <:+: source.toList) :
    ((∃ e, (lexer.tokenize source).2.value = .error e ∧
        (lexer'.tokenize source').2.value = .error e) ∨
      ∃ ls ls', (lexer.tokenize source).2.value = .ok ls ∧
        (lexer'.tokenize source').2.value = .ok ls' ∧ ls.size = ls'.size ∧
        ∀ i (h : i < ls.size) (h' : i < ls'.size),
          ls[i].type? = ls'[i].type? ∧ SameButCase ls[i].text ls'[i].text) ∧
      (lexer.tokenize source).1.metrics = (lexer'.tokenize source').1.metrics := by
  obtain ⟨hlexemes, -, herror, hmetrics⟩ :=
    Outcome.mk.inj (scan_lowered_eq hcase hopen lexer.preferences.detailedMetrics)
  simp only [tokenize]
  rw [← hpreferences, ← herror, ← hmetrics]
  refine ⟨?_, rfl⟩
  cases he : (scan source lexer.preferences.detailedMetrics).error? with
  | some e => exact .inl ⟨e, rfl, rfl⟩
  | none =>
      refine .inr ⟨_, _, rfl, rfl, ?_, ?_⟩
      · simpa using congrArg Array.size hlexemes
      · intro i h h'
        exact Lexeme.getElem_of_map_lowered_eq hlexemes h h'

/-- A tag, a reserved word, an exponent and digits to the base sixteen. -/
theorem tokenize_caseInsensitive_capitals :
    SameButCase "<?PHP Echo 0XfF . 1E3 ?>" "<?php echo 0xFf . 1e3 ?>" ∧
      ¬ ['<', '<', '<'] <:+: "<?PHP Echo 0XfF . 1E3 ?>".toList ∧
      (Lexer.tokenize {} "<?PHP Echo 0XfF . 1E3 ?>").1.metrics =
        (Lexer.tokenize {} "<?php echo 0xFf . 1e3 ?>").1.metrics := by
  have hcase : SameButCase "<?PHP Echo 0XfF . 1E3 ?>" "<?php echo 0xFf . 1e3 ?>" := by decide
  have hopen : ¬ ['<', '<', '<'] <:+: "<?PHP Echo 0XfF . 1E3 ?>".toList := by
    intro hmark
    exact absurd (hmark.sublist.count_le '<') (by decide)
  exact ⟨hcase, hopen, (tokenize_caseInsensitive rfl hcase hopen).2⟩

end Lexer

end PhpTokens
