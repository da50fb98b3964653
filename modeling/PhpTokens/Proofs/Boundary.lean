import PhpTokens.Lexer.Scanner
import PhpTokens.Proofs.CodeRule
import PhpTokens.Proofs.Delimited
import PhpTokens.Proofs.Number

/-!
# What a cut sees of the text behind it

Every rule looks a little past the lexeme that it reads: a number at a letter
and a sign, an operator at two more characters, a closing label at one. What it
looks for there is always more text of the same kind, and such text is plain: it
has no space in it and no close tag.

So a lexeme `t` that is cut from `t ++ r` is cut from `t ++ r'` too, if `r`
begins with all plain text that `r'` begins with (`Reflects`). That is what
`Reflects.codeCut` says, for every rule but those of trivia, which may hold
text that is not plain. The opening of a heredoc may hold spaces, and so a mark
needs to be told that it does not become one. Trivia ask two things more, what
blanks go on with and what ends a line comment; with these (`EndsAlike`) every
lexeme is cut from both texts (`EndsAlike.codeCut`).
-/

namespace PhpTokens.Lexer

/-- Neither a space nor a close tag stands in the text. -/
def isPlain : List Char → Bool
  | [] => true
  | c :: cs => c != ' ' && !(c == '?' && cs.head? == some '>') && isPlain cs

theorem isPlain_of_append {t x : List Char} (h : isPlain (t ++ x) = true) : isPlain x = true := by
  induction t with
  | nil => exact h
  | cons c t ih =>
      rw [List.cons_append, isPlain, Bool.and_eq_true] at h
      exact ih h.2

theorem isPlain_of_class {p : Char → Bool} {x : List Char} (h : ∀ c ∈ x, p c = true)
    (hspace : p ' ' = false) (hmark : p '?' = false) : isPlain x = true := by
  induction x with
  | nil => rfl
  | cons c x ih =>
      have hc := h c List.mem_cons_self
      rw [isPlain, ih fun d hd => h d (List.mem_cons_of_mem c hd)]
      simp [ne_of_class hc hspace, ne_of_class hc hmark]

theorem isPlain_of_isNumeral {t : List Char} (h : IsNumeral t) : isPlain t = true :=
  isPlain_of_class h.mem (by decide) (by decide)

theorem isPlain_of_isSymbol {t : List Char} (h : Operator.IsSymbol t) : isPlain t = true :=
  Operator.of_isSymbol h (by decide)

/-- A run of a class ends where its length says. -/
theorem takeWhile_length_eq_iff {p : Char → Bool} {t r : List Char} :
    ((t ++ r).takeWhile p).length = t.length ↔
      (∀ c ∈ t, p c = true) ∧ r.head?.any p = false := by
  constructor
  · intro hlength
    have htake : (t ++ r).takeWhile p = t :=
      (List.prefix_of_prefix_length_le (List.takeWhile_prefix p) (List.prefix_append t r)
        (Nat.le_of_eq hlength)).eq_of_length hlength
    have hall : ∀ c ∈ t, p c = true := by
      rw [← htake]
      exact List.all_eq_true.1 List.all_takeWhile
    refine ⟨hall, ?_⟩
    rw [List.takeWhile_append_of_pos hall, List.append_right_eq_self] at htake
    match r with
    | [] => rfl
    | d :: r =>
        refine eq_false_of_ne_true fun hd => ?_
        have hpd : p d = true := hd
        rw [List.takeWhile_cons, if_pos hpd] at htake
        cases htake
  · intro h
    rw [takeWhile_append_stop h.1 h.2]

/-- Whatever plain text `r'` begins with, `r` begins with it too. -/
def Reflects (r r' : List Char) : Prop := ∀ x, x <+: r' → isPlain x = true → x <+: r

namespace Reflects

variable {r r' : List Char}

theorem append (h : Reflects r r') (t : List Char) : Reflects (t ++ r) (t ++ r') := by
  intro x hx hplain
  exact head_of_match (P := (isPlain · = true)) (fun y hy hty => h y hy (isPlain_of_append hty)) hx
    hplain

theorem head?_eq (h : Reflects r r') {d : Char} (hd : d ≠ ' ') (hr' : r'.head? = some d) :
    r.head? = some d := by
  obtain ⟨after, rfl⟩ := List.head?_eq_some_iff.1 hr'
  obtain ⟨rest, rfl⟩ := h [d] ⟨after, rfl⟩ (by simp [isPlain, hd])
  rfl

theorem head?_any_eq_false (h : Reflects r r') {p : Char → Bool} (hp : p ' ' = false)
    (hr : r.head?.any p = false) : r'.head?.any p = false := by
  match r' with
  | [] => rfl
  | d :: after =>
      refine eq_false_of_ne_true fun hd => ?_
      have hd' : p d = true := hd
      have hhead := h.head?_eq (ne_of_class hd' hp) rfl
      rw [hhead] at hr
      exact absurd (hr.symm.trans hd') (by simp)

theorem isLongest (h : Reflects r r') {P : List Char → Prop} {t : List Char}
    (hP : ∀ x, P x → isPlain x = true) (hlongest : IsLongest P t (t ++ r)) :
    IsLongest P t (t ++ r') :=
  hlongest.congr fun y hy hty => h y hy (isPlain_of_append (hP _ hty))

/-! ## Names, numbers and operators -/

theorem takeWhile_eq (h : Reflects r r') {p : Char → Bool} (hp : p ' ' = false) {t : List Char}
    (ht : ((t ++ r).takeWhile p).length = t.length) :
    (t ++ r').takeWhile p = (t ++ r).takeWhile p := by
  obtain ⟨hall, hstop⟩ := takeWhile_length_eq_iff.1 ht
  rw [takeWhile_append_stop hall hstop,
    takeWhile_append_stop hall (h.head?_any_eq_false hp hstop)]

theorem word_eq (h : Reflects r r') {c : Char} {t word : List Char}
    (hword : (c :: (t ++ r)).takeWhile isNameChar = word)
    (hlength : word.length = (c :: t).length) : (c :: (t ++ r')).takeWhile isNameChar = word := by
  subst hword
  exact h.takeWhile_eq (t := c :: t) (by decide) hlength

theorem number_eq (h : Reflects r r') {c : Char} {t : List Char}
    (hopens : OpensNumber (c :: (t ++ r)))
    (hlength : (number (c :: (t ++ r))).2 = (c :: t).length) :
    OpensNumber (c :: (t ++ r')) ∧ number (c :: (t ++ r')) = number (c :: (t ++ r)) := by
  obtain ⟨type, u, hnumber, htype, hlongest⟩ := number_spec hopens
  rw [hnumber] at hlength ⊢
  obtain rfl : u = c :: t :=
    (List.prefix_of_prefix_length_le hlongest.head (List.prefix_append (c :: t) r)
      (Nat.le_of_eq hlength)).eq_of_length hlength
  have hopens' : OpensNumber (c :: (t ++ r')) := by
    rw [opensNumber_cons_iff] at hopens ⊢
    refine hopens.imp_right ?_
    intro hpoint
    obtain ⟨rfl, hdigit⟩ := hpoint
    refine ⟨rfl, ?_⟩
    -- The digit behind a leading point belongs to the number.
    match t with
    | [] =>
        match r, hdigit with
        | d :: r, hd =>
            have hle := hlongest.length_le ['.', d] ⟨r, rfl⟩
              ⟨_, .pointed (.mk (.inl rfl) (.inr (.single hd)) (.inr (by simp)))⟩
            exact absurd hle (by simp)
    | d :: t => exact hdigit
  refine ⟨hopens', (number_eq_iff hopens').2 ⟨c :: t, rfl, htype, ?_⟩⟩
  exact h.isLongest (fun x => isPlain_of_isNumeral) hlongest

theorem leading?_eq_some (h : Reflects r r') {t : List Char} {o : Operator}
    (ho : Operator.leading? (t ++ r) = some (o, t.length)) :
    Operator.leading? (t ++ r') = some (o, t.length) := by
  obtain ⟨u, hlength, hsymbol, hlongest⟩ := Operator.leading?_eq_some_iff.1 ho
  obtain rfl : t = u :=
    (List.prefix_of_prefix_length_le (List.prefix_append t r) hlongest.head
      (Nat.le_of_eq hlength)).eq_of_length hlength
  exact Operator.leading?_eq_some_iff.2
    ⟨t, rfl, hsymbol, h.isLongest (fun x => isPlain_of_isSymbol) hlongest⟩

theorem leading?_eq_none (h : Reflects r r') {t : List Char}
    (hnone : Operator.leading? (t ++ r) = none) : Operator.leading? (t ++ r') = none := by
  rw [Operator.leading?_eq_none_iff] at hnone ⊢
  intro x hx hsymbol
  exact hnone x (h.append t x hx (isPlain_of_isSymbol hsymbol)) hsymbol

end Reflects

/-! ## Line breaks and literals -/

theorem lineBreakLength_eq_iff {t r : List Char} :
    lineBreakLength (t ++ r) = t.length ↔
      IsLineBreak t r ∨ (t = [] ∧ r.head? ≠ some '\r' ∧ r.head? ≠ some '\n') := by
  constructor
  · intro hlength
    by_cases hpos : 0 < lineBreakLength (t ++ r)
    · obtain ⟨newline, body, htext, hnewline⟩ := exists_isLineBreak hpos
      rw [htext, lineBreakLength_append hnewline] at hlength
      obtain ⟨rfl, rfl⟩ := List.append_inj htext hlength.symm
      exact .inl hnewline
    · have ht : t = [] := List.eq_nil_of_length_eq_zero (by omega)
      subst ht
      rw [List.nil_append, lineBreakLength_pos_iff] at hpos
      exact .inr ⟨rfl, fun hr => hpos (.inl hr), fun hr => hpos (.inr hr)⟩
  · intro h
    rcases h with hnewline | ⟨rfl, hreturn, hfeed⟩
    · exact lineBreakLength_append hnewline
    · refine Nat.eq_zero_of_not_pos fun hpos => ?_
      rcases lineBreakLength_pos_iff.1 hpos with hr | hr
      · exact hreturn hr
      · exact hfeed hr

/-- Of what follows it, a line break sees whether a line feed begins it. -/
theorem IsLineBreak.congr {newline r r' : List Char} (h : IsLineBreak newline r)
    (hfeed : r'.head? = some '\n' → r.head? = some '\n') : IsLineBreak newline r' := by
  cases h with
  | pair _ => exact .pair r'
  | feed _ => exact .feed r'
  | carriage hr => exact .carriage fun hr' => hr (hfeed hr')

/-- A limit on the lexeme does not ask what follows it. -/
theorem byteLength_take_congr {t r r' : List Char} {limit : Nat}
    (h : Text.byteLength ((t ++ r).take t.length) ≤ limit) :
    Text.byteLength ((t ++ r').take t.length) ≤ limit := by
  rwa [List.take_left] at h ⊢

/-- A quoted literal does not depend on what follows it. -/
theorem quotedLength?_congr {q : Char} (hq : q ≠ '\\') {t r : List Char}
    (h : quotedLength? (q :: (t ++ r)) = some (q :: t).length) (r' : List Char) :
    quotedLength? (q :: (t ++ r')) = some (q :: t).length := by
  obtain ⟨u, rest, htext, hlength, hu⟩ := quotedFrom?_spec h
  rw [List.length_cons, Nat.add_comm] at hlength
  obtain ⟨rfl, -⟩ := List.append_inj htext (Nat.add_left_cancel hlength)
  rw [quotedLength?, hu.quotedFrom?_append hq, List.length_cons, Nat.add_comm]

/-! ## Cuts -/

namespace Reflects

variable {r r' : List Char}

theorem closeTag (h : Reflects r r') {t : List Char} (ht : lineBreakLength (t ++ r) = t.length) :
    lineBreakLength (t ++ r') = t.length := by
  rcases lineBreakLength_eq_iff.1 ht with hnewline | ⟨rfl, hreturn, hfeed⟩
  · exact lineBreakLength_eq_iff.2 (.inl (hnewline.congr (h.head?_eq (by decide))))
  · exact lineBreakLength_eq_iff.2 (.inr ⟨rfl, fun hr => hreturn (h.head?_eq (by decide) hr),
      fun hr => hfeed (h.head?_eq (by decide) hr)⟩)

theorem isMark (h : Reflects r r') {c : Char} (hmark : IsMark c r)
    (hheredoc : heredocHeader? (c :: r') = none) : IsMark c r' where
  not_close := fun hc => hmark.not_close ⟨hc.1, h.head?_eq (by decide) hc.2⟩
  not_blank := hmark.not_blank
  ne_hash := hmark.ne_hash
  not_comment := fun hc => hmark.not_comment
    ⟨hc.1, hc.2.imp (h.head?_eq (by decide)) (h.head?_eq (by decide))⟩
  not_variable := fun hc => by
    have hr : r.head?.any isNameStart = false :=
      eq_false_of_ne_true fun hr => hmark.not_variable ⟨hc.1, hr⟩
    exact absurd (hc.2.symm.trans (h.head?_any_eq_false (by decide) hr)) (by simp)
  not_name := hmark.not_name
  ne_separator := hmark.ne_separator
  not_number := fun hc => hmark.not_number (hc.imp_right fun hpoint => ⟨hpoint.1, by
    refine Classical.byContradiction fun hr => ?_
    have hr' := h.head?_any_eq_false (by decide) (eq_false_of_ne_true hr)
    exact absurd (hpoint.2.symm.trans hr') (by simp)⟩)
  not_quote := hmark.not_quote
  not_heredoc := hheredoc

/-- A lexeme that is no trivia is cut alike from both texts. -/
theorem codeCut [Limits] (h : Reflects r r') {nameExpected : Bool} {c : Char} {t : List Char}
    {cut : Cut}
    (hcut : CodeCut nameExpected c (t ++ r) cut) (hlength : cut.length = (c :: t).length)
    (htrivia : cut.type?.any TokenType.isTrivia = false)
    (hheredoc : IsMark c (t ++ r) →
      (∀ o n, Operator.leading? (c :: (t ++ r)) = some (o, n) → cut = ⟨some (.operator o), n⟩) →
      heredocHeader? (c :: (t ++ r')) = none) :
    CodeCut nameExpected c (t ++ r') cut := by
  -- The rule that reads the first text reads the second: its guard looks only at
  -- characters of the lexeme or at plain text.
  cases hcut with
  | blanks _ _ | lineComment _ _ _ | blockComment _ _ _ _ _ | docComment _ _ _ _ _ => cases htrivia
  | @closeTag after n hc hcs hn =>
      obtain ⟨t, rfl⟩ : ∃ t', t = '>' :: t' := by
        match t with
        | [] => exact absurd hlength (by simp; omega)
        | _ :: t =>
            cases hcs
            exact ⟨t, rfl⟩
      obtain rfl : t ++ r = after := (List.cons.inj hcs).2
      obtain rfl : n = t.length := by
        simp only [List.length_cons] at hlength
        omega
      exact .closeTag hc rfl (h.closeTag hn)
  | @variableName name hc hcs hname hsize =>
      have hrun : ((t ++ r).takeWhile isNameChar).length = t.length := by
        rw [hname]
        simp only [List.length_cons] at hlength
        omega
      have hcs' : (t ++ r').head?.any isNameStart = true := by
        match t with
        | [] =>
            have hstop := (takeWhile_length_eq_iff (t := []) (r := r)).1 hrun
            match r, hcs with
            | d :: r, hd =>
                have hd' : isNameChar d = true := isNameChar_iff.2 (.inl hd)
                exact absurd (hstop.2.symm.trans hd') (by simp)
        | d :: t => exact hcs
      exact .variableName hc hcs' ((h.takeWhile_eq (by decide) hrun).trans hname) hsize
  | keyword hc hword hk hname hsize => exact .keyword hc (h.word_eq hword hlength) hk hname hsize
  | identifier hc hword hname hsize => exact .identifier hc (h.word_eq hword hlength) hname hsize
  | separator hc => exact .separator hc
  | integer hc hn =>
      obtain ⟨hopens, hnumber⟩ :=
        h.number_eq (opensNumber_cons_iff.2 hc) (by rw [hn]; exact hlength)
      exact .integer (opensNumber_cons_iff.1 hopens) (hnumber.trans hn)
  | float hc hn =>
      obtain ⟨hopens, hnumber⟩ :=
        h.number_eq (opensNumber_cons_iff.2 hc) (by rw [hn]; exact hlength)
      exact .float (opensNumber_cons_iff.1 hopens) (hnumber.trans hn)
  | @quoted n hc hn hsize =>
      obtain rfl : n = (c :: t).length := hlength
      have hq : c ≠ '\\' := by rcases hc with rfl | rfl <;> decide
      exact .quoted hc (quotedLength?_congr hq hn r') (byteLength_take_congr (t := c :: t) hsize)
  | @heredoc n k label hheader hn hsize =>
      obtain rfl : n = (c :: t).length := hlength
      obtain ⟨hheader', hn'⟩ :=
        heredoc_congr (t := c :: t) hheader hn (h.head?_any_eq_false (by decide))
      exact .heredoc hheader' hn' (byteLength_take_congr (t := c :: t) hsize)
  | @operator o n hmark ho =>
      obtain rfl : n = (c :: t).length := hlength
      have hnone := hheredoc hmark fun o' n' ho' => by
        cases ho.symm.trans ho'
        rfl
      exact .operator ((h.append t).isMark hmark hnone) (h.leading?_eq_some (t := c :: t) ho)
  | bare hmark ho hc =>
      have hnone := hheredoc hmark fun o' n' ho' => by cases ho.symm.trans ho'
      exact .bare ((h.append t).isMark hmark hnone) (h.leading?_eq_none (t := c :: t) ho) hc

end Reflects

/-! ## Trivia -/

theorem lineCommentLength_congr {mark : Nat} {t r r' : List Char} (hmark : mark ≤ t.length)
    (hr : ∀ ending, EndsComment ending r → EndsComment ending r')
    (h : lineCommentLength mark (t ++ r) = t.length) :
    lineCommentLength mark (t ++ r') = t.length := by
  rw [lineCommentLength, List.drop_append_of_le_length hmark] at h ⊢
  obtain ⟨body, ending, rest, htext, hbody, hending, hfrom⟩ :=
    lineCommentFrom_spec mark (t.drop mark ++ r)
  have hlength : (t.drop mark).length = (body ++ ending).length := by
    rw [List.length_drop]
    omega
  rw [← List.append_assoc] at htext
  obtain ⟨hdrop, rfl⟩ := List.append_inj htext hlength
  rw [hdrop, List.append_assoc, lineCommentFrom_append hbody (hr ending hending), ← hfrom, h]

theorem OpensLineComment.congr {c : Char} {t r : List Char} {mark : Nat}
    (h : OpensLineComment c (t ++ r) mark) (hmark : mark ≤ (c :: t).length) (r' : List Char) :
    OpensLineComment c (t ++ r') mark := by
  cases h with
  | hash hc => exact .hash hc
  | slashes hc hcs =>
      match t, hmark with
      | _ :: t, _ => exact .slashes hc hcs

theorem IsBlockComment.head?_eq {c : Char} {t : List Char} (h : IsBlockComment (c :: t))
    (r : List Char) : (t ++ r).head? = some '*' := by
  obtain ⟨b, hb, -⟩ := h
  cases hb
  rfl

theorem isBlockComment_of_length {c : Char} {t r : List Char} (hc : c = '/')
    (hcs : (t ++ r).head? = some '*')
    (hn : blockCommentLength? (c :: (t ++ r)) = some (c :: t).length) :
    IsBlockComment (c :: t) := by
  subst hc
  obtain ⟨rest, hrest⟩ := List.head?_eq_some_iff.1 hcs
  rw [hrest] at hn
  obtain ⟨u, rest', htext, hlength, hu⟩ := isBlockComment_of_blockCommentLength? hn
  rw [← hrest, ← List.cons_append] at htext
  rwa [(List.append_inj htext hlength).1]

/-- A lexeme that ends before `r` finds in `r'` all that it looks for there. -/
structure EndsAlike (r r' : List Char) : Prop where
  reflects : Reflects r r'
  head?_eq : ∀ d, r'.head? = some d → r.head? = some d
  endsComment : ∀ ending, EndsComment ending r → EndsComment ending r'

theorem EndsAlike.codeCut [Limits] {r r' : List Char} (h : EndsAlike r r') {nameExpected : Bool}
    {c : Char} {t : List Char} {cut : Cut} (hcut : CodeCut nameExpected c (t ++ r) cut)
    (hlength : cut.length = (c :: t).length)
    (hheredoc : IsMark c (t ++ r) →
      (∀ o n, Operator.leading? (c :: (t ++ r)) = some (o, n) → cut = ⟨some (.operator o), n⟩) →
      heredocHeader? (c :: (t ++ r')) = none) :
    CodeCut nameExpected c (t ++ r') cut := by
  cases htrivia : cut.type?.any TokenType.isTrivia with
  | false => exact h.reflects.codeCut hcut hlength htrivia hheredoc
  | true =>
      cases hcut with
      | @blanks n hc hn =>
          obtain rfl : n = (c :: t).length := hlength
          obtain ⟨hall, hstop⟩ := (takeWhile_length_eq_iff (t := c :: t)).1 hn
          have hstop' : r'.head?.any isBlank = false := by
            match r' with
            | [] => rfl
            | d :: _ =>
                rw [h.head?_eq d rfl] at hstop
                exact hstop
          exact .blanks hc ((takeWhile_length_eq_iff (t := c :: t)).2 ⟨hall, hstop'⟩)
      | @lineComment mark n hmark hn hsize =>
          obtain rfl : n = (c :: t).length := hlength
          have hle : mark ≤ (c :: t).length := hn ▸ le_lineCommentLength mark _
          exact .lineComment (hmark.congr hle r')
            (lineCommentLength_congr (t := c :: t) hle h.endsComment hn)
            (byteLength_take_congr (t := c :: t) hsize)
      | @blockComment n hc hcs hn hdoc hsize =>
          obtain rfl : n = (c :: t).length := hlength
          have hblock := isBlockComment_of_length hc hcs hn
          exact .blockComment hc (hblock.head?_eq r') (hblock.blockCommentLength?_append r')
            (((hblock.isDocComment_append r').trans (hblock.isDocComment_append r).symm).trans hdoc)
            (byteLength_take_congr (t := c :: t) hsize)
      | @docComment n hc hcs hn hdoc hsize =>
          obtain rfl : n = (c :: t).length := hlength
          have hblock := isBlockComment_of_length hc hcs hn
          exact .docComment hc (hblock.head?_eq r') (hblock.blockCommentLength?_append r')
            (((hblock.isDocComment_append r').trans (hblock.isDocComment_append r).symm).trans hdoc)
            (byteLength_take_congr (t := c :: t) hsize)
      | _ => cases htrivia

/-- A cut of a scanner is the same in another text if it is in the mode at hand. -/
theorem Scanner.cut_congr [Limits] {s s' : Scanner} {c : Char} {t r r' : List Char} {cut : Cut}
    (hmode : s'.inCode = s.inCode) (hname : s'.nameExpected = s.nameExpected)
    (hcut : s.cut c (t ++ r) = .ok cut)
    (hcode : CodeCut s.nameExpected c (t ++ r) cut → CodeCut s.nameExpected c (t ++ r') cut)
    (htemplate : cutTemplate (c :: (t ++ r)) = cut → cutTemplate (c :: (t ++ r')) = cut) :
    s'.cut c (t ++ r') = .ok cut := by
  rw [Scanner.cut] at hcut ⊢
  rw [hmode, hname]
  by_cases hin : s.inCode = true
  · rw [if_pos hin, cutCode_eq_ok_iff] at hcut ⊢
    exact hcode hcut
  · rw [if_neg hin] at hcut ⊢
    exact congrArg Except.ok (htemplate (Except.ok.inj hcut))

end PhpTokens.Lexer
