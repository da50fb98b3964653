import PhpTokens.Proofs.Alone

/-!
# What each type of lexeme looks like

`Spells` gives the texts of every type of lexeme, without a word about how they
are found. A lexeme of code is cut from its text alone, so its shape can be read
off the rule that cuts it there (`CodeCut.spells`), with nothing behind it that
could end it. The lexemes of template text are the open tags and what stands
before them (`spells_cutTemplate`).

One text of the list depends on its place: an open tag without a blank is the
last lexeme of its source (`tokenize_spells`).
-/

namespace PhpTokens.Lexer

open Scanner

/-- The line breaks. -/
def lineBreaks : List (List Char) := [['\n'], ['\r'], ['\r', '\n']]

/-- A closing label begins the text, alone but for what cannot go on with it. -/
def BeginsClosing (label cs : List Char) : Prop :=
  ∃ indent rest, cs = indent ++ (label ++ rest) ∧ (∀ c ∈ indent, isIndent c = true) ∧
    rest.head?.any isNameChar = false

/-- A heredoc: its header, lines of which none begins with the closing label, and
then the label. -/
inductive IsHeredoc : List Char → Prop where
  | mk {label header lines indent : List Char}
      (hheader : IsHeader label header (lines ++ (indent ++ label)))
      (hlines : lines = [] ∨ lines.getLast? = some '\n')
      (hindent : ∀ c ∈ indent, isIndent c = true)
      (hfirst : ∀ x y, lines = x ++ y → y ≠ [] → (x = [] ∨ x.getLast? = some '\n') →
        ¬ BeginsClosing label (y ++ (indent ++ label))) :
      IsHeredoc (header ++ (lines ++ (indent ++ label)))

/-- An open tag begins the text, with a blank behind `php`. -/
def OpensCode (t : List Char) : Prop :=
  (∃ after, t = '<' :: '?' :: '=' :: after) ∨
    ∃ a b c d after, t = '<' :: '?' :: a :: b :: c :: d :: after ∧ IsPhp a b c ∧ isBlank d = true

/-- The texts of a type, and of the lexemes without one. `last` says whether the
lexeme ends its source. -/
inductive Spells (last : Prop) : Option TokenType → List Char → Prop where
  | openTag {a b c : Char} {ending : List Char} (h : IsPhp a b c)
      (hending : ending = [' '] ∨ ending = ['\t'] ∨ ending ∈ lineBreaks) :
      Spells last (some .openTag) ('<' :: '?' :: a :: b :: c :: ending)
  | lastOpenTag {a b c : Char} (h : IsPhp a b c) (hlast : last) :
      Spells last (some .openTag) ['<', '?', a, b, c]
  | echoTag : Spells last (some .openTagWithEcho) ['<', '?', '=']
  | closeTag {newline : List Char} (h : newline = [] ∨ newline ∈ lineBreaks) :
      Spells last (some .closeTag) ('?' :: '>' :: newline)
  | inlineHtml {t : List Char} (hne : t ≠ []) (h : ∀ x y, t = x ++ y → ¬ OpensCode y) :
      Spells last (some .inlineHtml) t
  | whitespace {t : List Char} (hne : t ≠ []) (h : ∀ c ∈ t, isBlank c = true) :
      Spells last (some .whitespace) t
  | lineComment {mark body ending : List Char} (hmark : mark = ['#'] ∨ mark = ['/', '/'])
      (hbody : IsLineText body) (hending : ending = [] ∨ ending ∈ lineBreaks) :
      Spells last (some .comment) (mark ++ (body ++ ending))
  | blockComment {t : List Char} (h : IsBlockComment t) (hdoc : ¬ OpensDoc t) :
      Spells last (some .comment) t
  | docComment {t : List Char} (h : IsBlockComment t) (hdoc : OpensDoc t) :
      Spells last (some .docComment) t
  | variableName {name : List Char} (h : IsName name) :
      Spells last (some .variableName) ('$' :: name)
  | identifier {name : List Char} (h : IsName name) : Spells last (some .identifier) name
  | keyword {name : List Char} {k : Keyword} (h : IsName name)
      (hk : Keyword.ofWord? (String.ofList name) = some k) : Spells last (some (.keyword k)) name
  | separator : Spells last (some .nsSeparator) ['\\']
  | quoted {q : Char} {t : List Char} (hq : q = '\'' ∨ q = '"') (h : IsQuotedRest q t) :
      Spells last (some .stringLiteral) (q :: t)
  | heredoc {t : List Char} (h : IsHeredoc t) : Spells last (some .stringLiteral) t
  | number {type : TokenType} {t : List Char} (h : IsNumber type t) : Spells last (some type) t
  | operator {o : Operator} {t : List Char} (h : Operator.ofSymbol? (String.ofList t) = some o) :
      Spells last (some (.operator o)) t
  | bare {c : Char} (hc : isPunctuation c = true) (hother : c ∉ ['#', '\\', '\'', '"', '_']) :
      Spells last none [c]

theorem IsLineBreak.mem_lineBreaks {newline body : List Char} (h : IsLineBreak newline body) :
    newline ∈ lineBreaks := by
  cases h with
  | pair _ => decide
  | feed _ => decide
  | carriage _ => decide

theorem eq_nil_or_mem_lineBreaks {t : List Char} (h : lineBreakLength t = t.length) :
    t = [] ∨ t ∈ lineBreaks := by
  rw [← List.append_nil t, List.length_append, List.length_nil, Nat.add_zero,
    lineBreakLength_eq_iff] at h
  rcases h with hbreak | ⟨hnil, -⟩
  · exact .inr hbreak.mem_lineBreaks
  · exact .inl hnil

theorem EndsComment.eq_nil_or_mem_lineBreaks {ending rest : List Char}
    (h : EndsComment ending rest) : ending = [] ∨ ending ∈ lineBreaks := by
  cases h with
  | newline hnewline => exact .inr hnewline.mem_lineBreaks
  | close _ => exact .inl rfl
  | last => exact .inl rfl

/-! ## Lexemes of code -/

theorem isNumber_of_length {type : TokenType} {cs : List Char} (hopens : OpensNumber cs)
    (h : number cs = (type, cs.length)) : IsNumber type cs := by
  obtain ⟨type', t, hnumber, htype, hlongest⟩ := number_spec hopens
  obtain ⟨rfl, hlength⟩ := Prod.mk.inj (hnumber.symm.trans h)
  rwa [hlongest.head.eq_of_length hlength] at htype

theorem isName_of_length {c : Char} {t word : List Char} (hc : isNameStart c = true)
    (hword : (c :: t).takeWhile isNameChar = word) (hlength : word.length = (c :: t).length) :
    word = c :: t ∧ IsName (c :: t) := by
  subst hword
  have hwhole := (List.takeWhile_prefix isNameChar).eq_of_length hlength
  refine ⟨hwhole, ?_⟩
  rw [← hwhole]
  exact isName_takeWhile hc

theorem spells_lineComment {last : Prop} {c : Char} {t : List Char} {mark : Nat}
    (hmark : OpensLineComment c t mark) (h : lineCommentLength mark (c :: t) = (c :: t).length) :
    Spells last (some .comment) (c :: t) := by
  obtain ⟨body, ending, rest, htext, hbody, hending, hlength⟩ :=
    lineCommentFrom_spec mark ((c :: t).drop mark)
  have hle := hmark.le_length
  have hrest : rest = [] := by
    have hdrop := congrArg List.length htext
    rw [List.length_drop, ← List.append_assoc, List.length_append] at hdrop
    rw [lineCommentLength, hlength] at h
    exact List.eq_nil_of_length_eq_zero (by omega)
  rw [hrest, List.append_nil] at htext
  rw [← List.take_append_drop mark (c :: t), htext]
  refine .lineComment ?_ hbody hending.eq_nil_or_mem_lineBreaks
  cases hmark with
  | hash hc =>
      subst hc
      exact .inl rfl
  | slashes hc hcs =>
      subst hc
      obtain ⟨after, rfl⟩ := List.head?_eq_some_iff.1 hcs
      exact .inr rfl

theorem lineBegins_true_iff {x : List Char} :
    lineBegins true x = true ↔ x = [] ∨ x.getLast? = some '\n' := by
  cases x with
  | nil => simp [lineBegins]
  | cons c x => simp [lineBegins, List.getLast?_cons]

theorem isHeredoc_of_length {cs label : List Char} {k : Nat}
    (hheader : heredocHeader? cs = some (k, label))
    (hbody : (heredocBodyLength? label (cs.drop k)).map (k + ·) = some cs.length) :
    IsHeredoc cs := by
  rw [← List.append_nil cs] at hheader hbody
  rw [List.length_append, List.length_nil, Nat.add_zero] at hbody
  obtain ⟨header, b, rfl, -, hshape, hlength⟩ := exists_heredoc_eq hheader hbody
  rw [List.append_nil] at hshape hlength
  have hname := hshape.isName
  obtain ⟨lines, closing, m, rfl, hlines, hm, hcount, hfirst⟩ := heredocBodyFrom?_spec hlength
  obtain ⟨indent, rest, rfl, hindent, -, rfl⟩ := (closingLabel?_eq_some_iff hname).1 hm
  -- The literal ends with the label, so nothing stands behind it.
  obtain rfl : rest = [] := by
    simp only [List.length_append] at hcount
    exact List.eq_nil_of_length_eq_zero (by omega)
  rw [List.append_nil] at hshape hfirst ⊢
  refine .mk hshape (lineBegins_true_iff.1 hlines) hindent ?_
  intro x y hxy hy hx hclosing
  obtain ⟨indent', rest', hcs, hindent', hstop⟩ := hclosing
  have hnone := hfirst x (y ++ (indent ++ label)) (by rw [hxy, List.append_assoc])
    (lineBegins_true_iff.2 hx) (by
      rw [hxy, List.length_append]
      have := List.length_pos_iff.2 hy
      omega)
  rw [(closingLabel?_eq_some_iff hname).2 ⟨indent', rest', hcs, hindent', hstop, rfl⟩] at hnone
  cases hnone

theorem CodeCut.spells [Limits] {nameExpected : Bool} {c : Char} {t : List Char} {cut : Cut}
    (h : CodeCut nameExpected c t cut) (hlength : cut.length = (c :: t).length) (last : Prop) :
    Spells last cut.type? (c :: t) := by
  cases h with
  | @closeTag after n hc hcs hn =>
      subst hc hcs
      refine .closeTag (eq_nil_or_mem_lineBreaks ?_)
      simp only [List.length_cons] at hlength
      omega
  | @blanks n hc hn =>
      refine .whitespace (by simp) ?_
      have hwhole := (List.takeWhile_prefix isBlank).eq_of_length (hn.trans hlength)
      rw [← hwhole]
      exact List.all_eq_true.1 List.all_takeWhile
  | @lineComment mark n hmark hn _ =>
      obtain rfl : n = (c :: t).length := hlength
      exact spells_lineComment hmark hn
  | @blockComment n hc hcs hn hdoc _ =>
      obtain rfl : n = (c :: t).length := hlength
      have hblock : IsBlockComment (c :: t) := isBlockComment_of_length (r := []) hc
        (by rwa [List.append_nil]) (by rwa [List.append_nil])
      refine .blockComment hblock ?_
      rw [← isDocComment_iff, hdoc]
      simp
  | @docComment n hc hcs hn hdoc _ =>
      obtain rfl : n = (c :: t).length := hlength
      have hblock : IsBlockComment (c :: t) := isBlockComment_of_length (r := []) hc
        (by rwa [List.append_nil]) (by rwa [List.append_nil])
      exact .docComment hblock (isDocComment_iff.1 hdoc)
  | @variableName name hc hcs hname _ =>
      subst hc hname
      have hwhole : t.takeWhile isNameChar = t :=
        (List.takeWhile_prefix isNameChar).eq_of_length (by
          simp only [List.length_cons] at hlength
          omega)
      have hshape := isName_takeWhile hcs
      rw [hwhole] at hshape
      exact .variableName hshape
  | keyword hc hword hk _ _ =>
      obtain ⟨rfl, hshape⟩ := isName_of_length hc hword hlength
      exact .keyword hshape hk
  | identifier hc hword _ _ =>
      obtain ⟨rfl, hshape⟩ := isName_of_length hc hword hlength
      exact .identifier hshape
  | separator hc =>
      obtain rfl : t = [] := List.eq_nil_of_length_eq_zero (Nat.succ.inj hlength.symm)
      rw [hc]
      exact .separator
  | @integer n hc hn =>
      obtain rfl : n = (c :: t).length := hlength
      exact .number (isNumber_of_length (opensNumber_cons_iff.2 hc) hn)
  | @float n hc hn =>
      obtain rfl : n = (c :: t).length := hlength
      exact .number (isNumber_of_length (opensNumber_cons_iff.2 hc) hn)
  | quoted hc hn _ =>
      obtain ⟨u, rest, rfl, rfl, hu⟩ := quotedFrom?_spec hn
      obtain rfl : rest = [] := by
        simp only [List.length_cons, List.length_append] at hlength
        exact List.eq_nil_of_length_eq_zero (by omega)
      rw [List.append_nil]
      exact .quoted hc hu
  | @heredoc n k label hheader hn _ =>
      obtain rfl : n = (c :: t).length := hlength
      exact .heredoc (isHeredoc_of_length hheader hn)
  | operator _ ho =>
      obtain ⟨u, rfl, hsymbol, hlongest⟩ := Operator.leading?_eq_some_iff.1 ho
      rw [hlongest.head.eq_of_length hlength] at hsymbol
      exact .operator hsymbol
  | bare hmark _ hc =>
      obtain rfl : t = [] := List.eq_nil_of_length_eq_zero (Nat.succ.inj hlength.symm)
      refine .bare hc ?_
      intro hmem
      simp only [List.mem_cons, List.not_mem_nil, or_false] at hmem
      rcases hmem with rfl | rfl | rfl | rfl | rfl
      · exact hmark.ne_hash rfl
      · exact hmark.ne_separator rfl
      · exact hmark.not_quote (.inl rfl)
      · exact hmark.not_quote (.inr rfl)
      · exact absurd hmark.not_name (by decide)

/-! ## Lexemes of template text -/

theorem IsOpenTag.spells {type : TokenType} {tag after : List Char} {last : Prop}
    (h : IsOpenTag type tag after) (hlast : after = [] → last) : Spells last (some type) tag := by
  cases h with
  | echo _ => exact .echoTag
  | last hphp => exact .lastOpenTag hphp (hlast rfl)
  | pair hphp _ => exact .openTag hphp (.inr (.inr (by decide)))
  | blank hphp hd _ =>
      refine .openTag hphp ?_
      simp only [isBlank, Bool.or_eq_true, beq_iff_eq, or_assoc] at hd
      rcases hd with rfl | rfl | rfl | rfl
      · exact .inl rfl
      · exact .inr (.inl rfl)
      · exact .inr (.inr (by decide))
      · exact .inr (.inr (by decide))

theorem OpensCode.openTag?_isSome {y : List Char} (h : OpensCode y) (r : List Char) :
    (openTag? (y ++ r)).isSome = true := by
  rw [openTag?_isSome_iff]
  rcases h with ⟨after, rfl⟩ | ⟨a, b, c, d, after, rfl, hphp, hd⟩
  · exact .inl ⟨after ++ r, rfl⟩
  · exact .inr ⟨a, b, c, d :: (after ++ r), rfl, hphp, .inr hd⟩

theorem spells_cutTemplate {t r : List Char} {last : Prop} (ht : t ≠ [])
    (hlength : (cutTemplate (t ++ r)).length = t.length) (hlast : r = [] → last) :
    Spells last (cutTemplate (t ++ r)).type? t := by
  cases hopen : openTag? (t ++ r) with
  | some tag =>
      obtain ⟨type, n⟩ := tag
      rw [cutTemplate, hopen] at hlength ⊢
      obtain ⟨tag, after, htext, htaglength, hshape⟩ := openTag?_eq_some_iff.1 hopen
      obtain ⟨rfl, rfl⟩ := List.append_inj htext (hlength.symm.trans htaglength)
      exact hshape.spells hlast
  | none =>
      have hn : templateLength (t ++ r) = t.length := by simpa [cutTemplate, hopen] using hlength
      rw [cutTemplate, hopen]
      refine .inlineHtml ht ?_
      intro x y hxy hcode
      have hy : 0 < y.length := by
        rcases hcode with ⟨after, rfl⟩ | ⟨a, b, c, d, after, rfl, -⟩ <;> simp
      have hnone := (templateLength_spec (t ++ r)).2.2 x.length (by
        rw [hn, hxy, List.length_append]
        omega)
      rw [hxy, List.append_assoc, List.drop_left] at hnone
      have hsome := hcode.openTag?_isSome r
      rw [hnone] at hsome
      cases hsome

/-- Every lexeme is spelled as its type says, and an open tag that ends without a
blank is the last one and ends the source. -/
theorem tokenize_spells [Limits] (lexer : Lexer) {source : String} {ls : Array Lexeme} {k : Nat}
    {l : Lexeme} (h : (lexer.tokenize source).2.value = .ok ls) (hl : ls[k]? = some l) :
    Spells (k + 1 = ls.size ∧ source.toList = textOf (ls.toList.take k) ++ l.text.toList)
      l.type? l.text.toList := by
  obtain ⟨s, hreads, hend⟩ := tokenize_eq_ok_iff.1 h
  obtain ⟨s', c, cs, cut, hbefore, hrest, hnext, rfl, hafter⟩ := hreads.exists_step hl
  obtain ⟨t, hlexeme, hcs, hlength⟩ := exists_rest_eq hrest hnext
  rw [hlexeme, String.toList_ofList]
  rcases next_cases hnext with ⟨-, hcut⟩ | ⟨-, rfl⟩
  · rw [hcs] at hcut
    exact (hcut.alone hlength).spells hlength _
  · rw [hcs] at hlength ⊢
    refine spells_cutTemplate (t := c :: t) (by simp) hlength ?_
    -- A tag that has nothing behind it is the last lexeme.
    intro hr
    have hnone := List.drop_eq_nil_iff.1 (hafter.eq_nil_of_rest hr)
    have hlt := (Array.getElem?_eq_some_iff.1 hl).1
    rw [Array.length_toList] at hnone
    refine ⟨by omega, ?_⟩
    have hsource : source.toList = textOf (ls.toList.take k) ++ s'.rest := hbefore.rest_eq
    rw [hsource, hrest, hcs, hr, List.append_nil]

/-- An open tag in mixed case, at the end of its source. -/
theorem tokenize_spells_lastOpenTag :
    Spells (1 + 1 = 2 ∧ "x<?PhP".toList = textOf [.typed .inlineHtml "x"] ++ "<?PhP".toList)
      (some .openTag) "<?PhP".toList := by
  have hlex : (Lexer.tokenize {} "x<?PhP").2.value =
      .ok #[.typed .inlineHtml "x", .typed .openTag "<?PhP"] :=
    tokenize_eq_ok_of_readAll? 3 (by decide)
  exact tokenize_spells {} (k := 1) hlex rfl

end PhpTokens.Lexer
