import PhpTokens.Proofs.Extent
import PhpTokens.Proofs.LineEnds

/-!
# Sources with pairs for line feeds

A source whose line feeds are written as pairs has the lexemes of the source
without the carriage returns, with their line feeds written as pairs. Only the
limits can tell the two apart, since a lexeme may be too long with the carriage
returns and not without; so the way is from the longer source to the shorter.

Each cut of the longer text is the spread of a cut of the shorter
(`CodeCut.of_crlf`, `cutTemplate_crlf`), so two scanners that stand at the same
place, `s` in the shorter source and `s'` in the longer, take the same lexeme
and stand at the same place again (`Scanner.Mirrors.step`).
-/

namespace PhpTokens

/-- The text with a carriage return before every line feed. -/
def Text.crlfString (s : String) : String := String.ofList (Text.crlf s.toList)

/-- The lexeme with a carriage return before every line feed of its text. -/
def Lexeme.crlf (l : Lexeme) : Lexeme := ⟨l.type?, Text.crlfString l.text⟩

@[simp] theorem Lexeme.crlf_type? (l : Lexeme) : l.crlf.type? = l.type? := rfl

namespace Lexer

open Text

/-! ## Cuts -/

theorem byteLength_take_le_crlf (cs : List Char) (k : Nat) :
    byteLength (cs.take k) ≤ byteLength ((crlf cs).take (spread cs k)) := by
  rw [take_crlf]
  exact byteLength_le_crlf (cs.take k)

theorem spread_takeWhile {p : Char → Bool} (hp : p '\n' = false) (cs : List Char) :
    spread cs (cs.takeWhile p).length = (cs.takeWhile p).length := by
  have hclass : ∀ c ∈ cs.takeWhile p, p c = true := List.all_eq_true.1 List.all_takeWhile
  have hplace := spread_append_of_not_mem (feed_not_mem_of_class hclass hp) (cs.dropWhile p)
  rwa [List.takeWhile_append_dropWhile] at hplace

theorem spread_two {c d : Char} (hc : c ≠ '\n') (hd : d ≠ '\n') (cs : List Char) (k : Nat) :
    spread (c :: d :: cs) (2 + k) = 2 + spread cs k := by
  rw [Nat.add_comm 2 k, spread_cons hc, spread_cons hd]
  omega

theorem OpensLineComment.of_crlf {c : Char} {cs : List Char} {mark : Nat}
    (h : OpensLineComment c (crlf cs) mark) :
    OpensLineComment c cs mark ∧ spread (c :: cs) mark = mark := by
  cases h with
  | hash hc =>
      subst hc
      exact ⟨.hash rfl, rfl⟩
  | slashes hc hcs =>
      subst hc
      rw [head?_crlf_eq_iff (by decide) (by decide)] at hcs
      obtain ⟨r, rfl⟩ := List.head?_eq_some_iff.1 hcs
      exact ⟨.slashes rfl rfl, rfl⟩

/-- A block comment of the longer text is one of the shorter, and documents as much. -/
theorem exists_blockComment_of_crlf {cs : List Char} {n : Nat}
    (hcs : (crlf cs).head? = some '*') (hn : blockCommentLength? ('/' :: crlf cs) = some n) :
    cs.head? = some '*' ∧ isDocComment ('/' :: crlf cs) = isDocComment ('/' :: cs) ∧
      ∃ k, blockCommentLength? ('/' :: cs) = some k ∧ n = spread ('/' :: cs) k := by
  rw [head?_crlf_eq_iff (by decide) (by decide)] at hcs
  obtain ⟨r, rfl⟩ := List.head?_eq_some_iff.1 hcs
  have htext : '/' :: crlf ('*' :: r) = crlf ('/' :: '*' :: r) := rfl
  rw [htext, blockCommentLength?_crlf rfl] at hn
  obtain ⟨k, hk, rfl⟩ := Option.map_eq_some_iff.1 hn
  exact ⟨rfl, by rw [htext, isDocComment_crlf], k, hk, rfl⟩

theorem number_of_crlf {c : Char} {cs : List Char} {type : TokenType} {n : Nat} (hline : c ≠ '\n')
    (hc : c.isDigit = true ∨ (c = '.' ∧ cs.head?.any Char.isDigit = true))
    (hn : number (c :: crlf cs) = (type, n)) :
    number (c :: cs) = (type, n) ∧ spread (c :: cs) n = n := by
  have hopens := opensNumber_cons_iff.2 hc
  have hspread := spread_number hopens
  rw [← crlf_cons hline, number_crlf hopens] at hn
  rw [hn] at hspread
  exact ⟨hn, hspread⟩

theorem IsMark.of_crlf {c : Char} {cs : List Char} (h : IsMark c (crlf cs)) (hc : c ≠ '\n')
    (hreturn : '\r' ∉ c :: cs) : IsMark c cs where
  not_close := by
    have := h.not_close
    rwa [head?_crlf_eq_iff (by decide) (by decide)] at this
  not_blank := h.not_blank
  ne_hash := h.ne_hash
  not_comment := by
    have := h.not_comment
    rwa [head?_crlf_eq_iff (by decide) (by decide), head?_crlf_eq_iff (by decide) (by decide)]
      at this
  not_variable := by
    have := h.not_variable
    rwa [any_head?_crlf (by decide)] at this
  not_name := h.not_name
  ne_separator := h.ne_separator
  not_number := by
    have := h.not_number
    rwa [any_head?_crlf (by decide)] at this
  not_quote := h.not_quote
  not_heredoc := by
    have hnone := h.not_heredoc
    rw [← crlf_cons hc, heredocHeader?_crlf hreturn] at hnone
    exact Option.map_eq_none_iff.1 hnone

/-- Of a line feed and of a pair only blanks can come. -/
theorem CodeCut.of_crlf_feed [Limits] {nameExpected : Bool} {cs : List Char} {cut' : Cut}
    (h : CodeCut nameExpected '\r' ('\n' :: crlf cs) cut') :
    ∃ cut, CodeCut nameExpected '\n' cs cut ∧
      cut' = ⟨cut.type?, spread ('\n' :: cs) cut.length⟩ := by
  have hblanks : CodeCut nameExpected '\r' ('\n' :: crlf cs)
      ⟨some .whitespace, runLength isBlank (crlf ('\n' :: cs))⟩ := .blanks rfl rfl
  have hcut : Except.ok cut' = Except.ok _ := (h.eq .start).symm.trans (hblanks.eq .start)
  rw [runLength_crlf rfl] at hcut
  cases hcut
  exact ⟨_, .blanks rfl rfl, rfl⟩

/-- Each cut of the longer text is the spread of a cut of the shorter one. -/
theorem CodeCut.of_crlf [Limits] {nameExpected : Bool} {c c' : Char} {cs cs' : List Char}
    {cut' : Cut} (hreturn : '\r' ∉ c :: cs) (htext : crlf (c :: cs) = c' :: cs')
    (h : CodeCut nameExpected c' cs' cut') :
    ∃ cut, CodeCut nameExpected c cs cut ∧
      cut' = ⟨cut.type?, spread (c :: cs) cut.length⟩ := by
  by_cases hline : c = '\n'
  · subst hline
    cases htext
    exact h.of_crlf_feed
  have hpairs := crlf_cons hline cs
  obtain ⟨rfl, rfl⟩ := List.cons.inj (hpairs.symm.trans htext)
  cases h with
  | @closeTag after n hc hcs hn =>
      subst hc
      obtain ⟨r, rfl, rfl⟩ := eq_cons_of_crlf (by decide) hcs
      have hr : '\r' ∉ r := fun hmem => hreturn (by simp [hmem])
      refine ⟨_, .closeTag rfl rfl rfl, ?_⟩
      rw [← hn, lineBreakLength_crlf hr, spread_two (by decide) (by decide)]
  | blanks hc hn =>
      rw [← hpairs, runLength_crlf (by decide)] at hn
      exact ⟨_, .blanks hc rfl, by rw [← hn]⟩
  | lineComment hmark hn hsize =>
      obtain ⟨hmark, hspread⟩ := hmark.of_crlf
      rw [← hpairs, lineCommentLength_crlf hreturn hspread] at hn
      rw [← hpairs, ← hn] at hsize
      exact ⟨_, .lineComment hmark rfl (Nat.le_trans (byteLength_take_le_crlf _ _) hsize),
        by rw [← hn]⟩
  | blockComment hc hcs hn hdoc hsize =>
      subst hc
      obtain ⟨hcs, hsame, k, hk, rfl⟩ := exists_blockComment_of_crlf hcs hn
      rw [← hpairs] at hsize
      exact ⟨_, .blockComment rfl hcs hk (hsame.symm.trans hdoc)
        (Nat.le_trans (byteLength_take_le_crlf _ _) hsize), rfl⟩
  | docComment hc hcs hn hdoc hsize =>
      subst hc
      obtain ⟨hcs, hsame, k, hk, rfl⟩ := exists_blockComment_of_crlf hcs hn
      rw [← hpairs] at hsize
      exact ⟨_, .docComment rfl hcs hk (hsame.symm.trans hdoc)
        (Nat.le_trans (byteLength_take_le_crlf _ _) hsize), rfl⟩
  | variableName hc hcs hname hsize =>
      rw [any_head?_crlf (by decide)] at hcs
      rw [takeWhile_crlf_of_not (by decide) (by decide)] at hname
      subst hname
      refine ⟨_, .variableName hc hcs rfl hsize, ?_⟩
      rw [Nat.add_comm, spread_cons hline, spread_takeWhile (by decide)]
  | keyword hc hword hk hname hsize =>
      rw [← hpairs, takeWhile_crlf_of_not (by decide) (by decide)] at hword
      subst hword
      exact ⟨_, .keyword hc rfl hk hname hsize, by rw [spread_takeWhile (by decide)]⟩
  | identifier hc hword hname hsize =>
      rw [← hpairs, takeWhile_crlf_of_not (by decide) (by decide)] at hword
      subst hword
      exact ⟨_, .identifier hc rfl hname hsize, by rw [spread_takeWhile (by decide)]⟩
  | separator hc => exact ⟨_, .separator hc, by rw [spread_cons hline]; rfl⟩
  | integer hc hn =>
      rw [any_head?_crlf (by decide)] at hc
      obtain ⟨hn, hspread⟩ := number_of_crlf hline hc hn
      exact ⟨_, .integer hc hn, by rw [hspread]⟩
  | float hc hn =>
      rw [any_head?_crlf (by decide)] at hc
      obtain ⟨hn, hspread⟩ := number_of_crlf hline hc hn
      exact ⟨_, .float hc hn, by rw [hspread]⟩
  | quoted hc hn hsize =>
      rw [← hpairs, quotedLength?_crlf hc] at hn
      obtain ⟨k, hk, rfl⟩ := Option.map_eq_some_iff.1 hn
      rw [← hpairs] at hsize
      exact ⟨_, .quoted hc hk (Nat.le_trans (byteLength_take_le_crlf _ _) hsize), rfl⟩
  | heredoc hheader hn hsize =>
      rw [← hpairs, heredocHeader?_crlf hreturn] at hheader
      obtain ⟨⟨k, label⟩, hplain, heq⟩ := Option.map_eq_some_iff.1 hheader
      cases heq
      obtain ⟨header, body, -, -, hshape⟩ := heredocHeader?_eq_some_iff.1 hplain
      rw [← hpairs, drop_crlf, heredocBodyLength?_crlf hshape.isName, Option.map_map] at hn
      obtain ⟨m, hm, rfl⟩ := Option.map_eq_some_iff.1 hn
      have hspread : spread (c :: cs) k + spread ((c :: cs).drop k) m = spread (c :: cs) (k + m) :=
        (spread_add (c :: cs) k m).symm
      rw [← hpairs, Function.comp, hspread] at hsize
      exact ⟨_, .heredoc hplain (by rw [hm]; rfl)
        (Nat.le_trans (byteLength_take_le_crlf _ _) hsize), by rw [Function.comp, hspread]⟩
  | operator hmark ho =>
      rw [← hpairs, leading?_crlf] at ho
      exact ⟨_, .operator (hmark.of_crlf hline hreturn) ho, by rw [spread_of_leading? ho]⟩
  | bare hmark ho hc =>
      rw [← hpairs, leading?_crlf] at ho
      exact ⟨_, .bare (hmark.of_crlf hline hreturn) ho hc, by rw [spread_cons hline]; rfl⟩

/-! ## Runs -/

namespace Scanner

/-- The scanners stand at the same place, `s` in a text without carriage returns and `s'`
in that text with pairs. -/
structure Mirrors (s s' : Scanner) : Prop where
  rest_eq : s'.rest = crlf s.rest
  no_return : '\r' ∉ s.rest
  inCode_eq : s'.inCode = s.inCode
  nameExpected_eq : s'.nameExpected = s.nameExpected
  size_eq : s'.lexemes.size = s.lexemes.size

theorem start_mirrors {source : String} (h : '\r' ∉ source.toList) :
    (start source).Mirrors (start (crlfString source)) where
  rest_eq := String.toList_ofList
  no_return := h
  inCode_eq := rfl
  nameExpected_eq := rfl
  size_eq := rfl

/-- The one text that is asked for has no line end in it. -/
theorem expectsName_crlf (before : Bool) (l : Lexeme) :
    expectsName before l.crlf = expectsName before l := by
  have hreference : l.crlf.text = "&" ↔ l.text = "&" := by
    rw [← String.toList_inj, ← String.toList_inj, Lexeme.crlf, crlfString, String.toList_ofList]
    refine ⟨fun h => ?_, fun h => ?_⟩
    · obtain ⟨r, hl, hr⟩ := eq_cons_of_crlf (d := '&') (by decide) h
      rw [hl, crlf_eq_nil_iff.1 hr.symm]
      rfl
    · rw [h]
      rfl
  simp only [expectsName, Lexeme.crlf_type?, hreference]

/-- The scanner of the shorter text takes the same cut. -/
theorem Mirrors.cut [Limits] {s s' : Scanner} {c c' : Char} {cs cs' : List Char} {cut' : Cut}
    (h : s.Mirrors s') (hrest : s.rest = c :: cs) (hrest' : s'.rest = c' :: cs')
    (hnext : s'.next c' cs' = .ok cut') :
    ∃ cut, s.next c cs = .ok cut ∧ cut' = ⟨cut.type?, spread (c :: cs) cut.length⟩ := by
  have hreturn := h.no_return
  have htext := h.rest_eq
  rw [hrest] at hreturn htext
  rw [hrest'] at htext
  have hroom : s.lexemes.size < Limits.tokens := h.size_eq ▸ (next_eq_ok_iff.1 hnext).2
  rcases next_cases hnext with ⟨hcode, hcut⟩ | ⟨hcode, rfl⟩
  · rw [h.nameExpected_eq] at hcut
    rw [h.inCode_eq] at hcode
    obtain ⟨cut, hcut, hspread⟩ := CodeCut.of_crlf hreturn htext.symm hcut
    refine ⟨cut, next_eq_ok_iff.2 ⟨?_, hroom⟩, hspread⟩
    rw [Scanner.cut, if_pos hcode]
    exact hcut.eq s.position
  · rw [h.inCode_eq] at hcode
    refine ⟨cutTemplate (c :: cs), next_eq_ok_iff.2 ⟨?_, hroom⟩, ?_⟩
    · rw [Scanner.cut, hcode]
      rfl
    · rw [htext, cutTemplate_crlf hreturn]

/-- The scanners take the same lexeme, and stand at the same place again. -/
theorem Mirrors.step [Limits] {s s' : Scanner} {c' : Char} {cs' : List Char} {cut' : Cut}
    (h : s.Mirrors s') (hrest' : s'.rest = c' :: cs') (hnext : s'.next c' cs' = .ok cut') :
    ∃ c cs cut, s.rest = c :: cs ∧ s.next c cs = .ok cut ∧
      s'.lexeme cut' = (s.lexeme cut).crlf ∧ (s.take cut).Mirrors (s'.take cut') := by
  cases hrest : s.rest with
  | nil =>
      have htext := h.rest_eq
      rw [hrest, hrest'] at htext
      cases htext
  | cons c cs =>
      obtain ⟨cut, hcut, hspread⟩ := h.cut hrest hrest' hnext
      have hlength : cut'.length = spread s.rest cut.length := by rw [hspread, hrest]
      have htype : cut'.type? = cut.type? := by rw [hspread]
      have hlexeme : s'.lexeme cut' = (s.lexeme cut).crlf := by
        rw [lexeme, htype, hlength, h.rest_eq, take_crlf, Lexeme.crlf, crlfString, lexeme_text,
          String.toList_ofList, lexeme_type?]
      refine ⟨c, cs, cut, rfl, hcut, hlexeme, ?_, ?_, ?_, ?_, ?_⟩
      · rw [take_rest, hlength, h.rest_eq, drop_crlf, take_rest]
      · exact fun hmem => h.no_return (List.mem_of_mem_drop hmem)
      · rw [take_inCode, htype, h.inCode_eq, take_inCode]
      · rw [take_nameExpected, hlexeme, h.nameExpected_eq, expectsName_crlf, take_nameExpected]
      · rw [take_lexemes, take_lexemes, Array.size_push, Array.size_push, h.size_eq]

theorem Mirrors.reads [Limits] {s s' t' : Scanner} {ls' : List Lexeme} (h : s.Mirrors s')
    (hreads : Reads s' ls' t') :
    ∃ ls t, Reads s ls t ∧ t.Mirrors t' ∧ ls' = ls.map Lexeme.crlf := by
  induction hreads generalizing s with
  | done s' => exact ⟨[], s, .done s, h, rfl⟩
  | more hrest' hnext' _ ih =>
      obtain ⟨c, cs, cut, hrest, hnext, hlexeme, htake⟩ := h.step hrest' hnext'
      obtain ⟨ls, t, hreads, ht, rfl⟩ := ih htake
      exact ⟨s.lexeme cut :: ls, t, .more hrest hnext hreads, ht, by rw [hlexeme, List.map_cons]⟩

end Scanner

open Scanner

/-- If a source without carriage returns can be cut with pairs for its line feeds, it can
be cut as it is, into as many lexemes of the same types; and with pairs for the line feeds
of each text they are those of the longer source. -/
theorem tokenize_of_crlf [Limits] (lexer lexer' : Lexer) {source : String}
    (hreturn : '\r' ∉ source.toList) {ls' : Array Lexeme}
    (hok : (lexer'.tokenize (crlfString source)).2.value = .ok ls') :
    ∃ ls, (lexer.tokenize source).2.value = .ok ls ∧ ls.size = ls'.size ∧
      ∀ i (h : i < ls.size) (h' : i < ls'.size),
        ls'[i].type? = ls[i].type? ∧ ls'[i].text = crlfString ls[i].text := by
  obtain ⟨t', hreads', hend'⟩ := tokenize_eq_ok_iff.1 hok
  obtain ⟨ls, t, hreads, ht, hls⟩ := (start_mirrors hreturn).reads hreads'
  have hend : t.rest = [] := by
    rw [← crlf_eq_nil_iff, ← ht.rest_eq, hend']
  obtain rfl : ls' = ls.toArray.map Lexeme.crlf := by
    rw [← Array.toList_inj, hls, Array.toList_map]
  refine ⟨ls.toArray, tokenize_eq_ok_iff.2 ⟨t, hreads, hend⟩, by simp, ?_⟩
  intro i h h'
  rw [Array.getElem_map]
  exact ⟨rfl, rfl⟩

/-- Line ends in an open tag, a comment, behind a backslash, in a heredoc, among blanks and in
a close tag. -/
theorem tokenize_of_crlf_everywhere :
    let source := "<?php\n#a\n'\\\n'.<<<E\n b\n E;\n?>\n"
    let ls' : Array Lexeme :=
      #[.typed .openTag "<?php\r\n", .typed .comment "#a\r\n", .typed .stringLiteral "'\\\r\n'",
        .bare ".", .typed .stringLiteral "<<<E\r\n b\r\n E", .bare ";",
        .typed .whitespace "\r\n", .typed .closeTag "?>\r\n"]
    '\r' ∉ source.toList ∧ (Lexer.tokenize {} (crlfString source)).2.value = .ok ls' ∧
      ∃ ls, (Lexer.tokenize {} source).2.value = .ok ls ∧ ls.size = 8 ∧
        ∀ i (h : i < ls.size) (h' : i < ls'.size),
          ls'[i].type? = ls[i].type? ∧ ls'[i].text = crlfString ls[i].text := by
  intro source ls'
  have hreturn : '\r' ∉ source.toList := by decide
  have hsource : crlfString source =
      "<?php\r\n#a\r\n'\\\r\n'.<<<E\r\n b\r\n E;\r\n?>\r\n" := by
    rw [crlfString, ← String.toList_inj, String.toList_ofList]
    decide
  have hok : (Lexer.tokenize {} (crlfString source)).2.value = .ok ls' := by
    rw [hsource]
    exact tokenize_eq_ok_of_readAll? 9 (by decide)
  exact ⟨hreturn, hok, tokenize_of_crlf {} {} hreturn hok⟩

end Lexer

end PhpTokens
