import PhpTokens.Proofs.Spelling

/-!
# Where a comment ends, and of which kind it is

A line comment is ended by whatever comes first of four: a line feed, a carriage
return, a close tag, and the end of the text. `EndsComment` says how much of it
belongs to the comment; `IsFirstEnding` says that it comes first. Since the mark
of a comment has none of these in it, counting from behind the mark and counting
from the front of the text come to the same (`OpensLineComment.isLineText`).

A block comment is the shortest head of the text that is closed, where a closed
head has room for both marks: in `/*/` they would share the star. So the search
for `*/` that begins behind the opening and the search among all heads of the
text find the same one (`blockCommentLength?_eq_some_iff`). The kind looks at
four characters of the text, and they belong to the comment: the fourth is at
most the last of the closing mark.
-/

namespace PhpTokens.Lexer

/-! ## Line comments -/

/-- Of all that ends a line comment in the text, the first stands behind `before`, and
`ending` of it belongs to the comment. -/
structure IsFirstEnding (text before ending : List Char) : Prop where
  ends : ∃ rest, text = before ++ (ending ++ rest) ∧ EndsComment ending rest
  length_le : ∀ before' ending' rest', text = before' ++ (ending' ++ rest') →
    EndsComment ending' rest' → before.length ≤ before'.length

/-- Nothing ends a comment within a line text, nor across its end where something else
ends the comment. -/
theorem IsLineText.length_le {before ending rest before' ending' rest' : List Char}
    (h : IsLineText before) (hends : EndsComment ending rest) (hends' : EndsComment ending' rest')
    (heq : before ++ (ending ++ rest) = before' ++ (ending' ++ rest')) :
    before.length ≤ before'.length := by
  refine Nat.le_of_not_lt fun hlt => ?_
  obtain ⟨z, rfl⟩ : before' <+: before :=
    List.prefix_of_prefix_length_le ⟨_, heq.symm⟩ (List.prefix_append _ _) (Nat.le_of_lt hlt)
  rw [List.append_assoc, List.append_cancel_left_eq] at heq
  cases z with
  | nil => simp at hlt
  | cons c z =>
      have hc : c ∈ before' ++ c :: z := by simp
      rw [List.cons_append] at heq
      cases hends' with
      | newline hnewline =>
          cases hnewline with
          | pair _ =>
              obtain ⟨rfl, -⟩ := List.cons.inj heq
              exact h.no_return hc
          | feed _ =>
              obtain ⟨rfl, -⟩ := List.cons.inj heq
              exact h.no_feed hc
          | carriage _ =>
              obtain ⟨rfl, -⟩ := List.cons.inj heq
              exact h.no_return hc
      | close after =>
          obtain ⟨rfl, htail⟩ := List.cons.inj heq
          cases z with
          | nil =>
              rw [List.nil_append] at htail
              exact hends.head?_ne (by rw [htail]; rfl)
          | cons d z =>
              obtain ⟨rfl, -⟩ := List.cons.inj htail
              exact h.no_close ⟨before', z, by simp⟩
      | last => cases heq

theorem IsLineText.isFirstEnding {before ending rest : List Char} (h : IsLineText before)
    (hends : EndsComment ending rest) :
    IsFirstEnding (before ++ (ending ++ rest)) before ending where
  ends := ⟨rest, rfl, hends⟩
  length_le := fun _ _ _ heq hends' => h.length_le hends hends' heq

theorem EndsComment.length_eq {ending rest ending' rest' : List Char} (h : EndsComment ending rest)
    (h' : EndsComment ending' rest') (heq : ending ++ rest = ending' ++ rest') :
    ending.length = ending'.length := by
  have hlength := h.lineCommentFrom_append 0
  rw [heq, h'.lineCommentFrom_append] at hlength
  omega

theorem IsFirstEnding.unique {text before ending before' ending' : List Char}
    (h : IsFirstEnding text before ending) (h' : IsFirstEnding text before' ending') :
    before = before' ∧ ending = ending' := by
  obtain ⟨rest, htext, hends⟩ := h.ends
  obtain ⟨rest', htext', hends'⟩ := h'.ends
  have hbefore : before.length = before'.length :=
    Nat.le_antisymm (h.length_le _ _ _ htext' hends') (h'.length_le _ _ _ htext hends)
  obtain ⟨rfl, hends_eq⟩ := List.append_inj (htext.symm.trans htext') hbefore
  exact ⟨rfl, (List.append_inj hends_eq (hends.length_eq hends' hends_eq)).1⟩

/-- The mark of a comment is itself a line text, so that what follows it may be counted
from the front. -/
theorem OpensLineComment.isLineText {c : Char} {cs body : List Char} {mark : Nat}
    (h : OpensLineComment c cs mark) (hbody : IsLineText body) :
    IsLineText ((c :: cs).take mark ++ body) := by
  cases h with
  | hash hc =>
      subst hc
      exact isLineText_cons_iff.2 ⟨by decide, by decide, by simp, hbody⟩
  | slashes hc hcs =>
      subst hc
      obtain ⟨after, rfl⟩ := List.head?_eq_some_iff.1 hcs
      have hslash : IsLineText ('/' :: body) :=
        isLineText_cons_iff.2 ⟨by decide, by decide, by simp, hbody⟩
      exact isLineText_cons_iff.2 ⟨by decide, by decide, by simp, hslash⟩

/-- A line comment ends at the first thing that ends one. -/
theorem OpensLineComment.exists_isFirstEnding {c : Char} {cs : List Char} {mark : Nat}
    (h : OpensLineComment c cs mark) :
    ∃ before ending, IsLineText before ∧ (ending = [] ∨ ending ∈ lineBreaks) ∧
      IsFirstEnding (c :: cs) before ending ∧
      (c :: cs).take (lineCommentLength mark (c :: cs)) = before ++ ending ∧
      lineCommentLength mark (c :: cs) = (before ++ ending).length := by
  obtain ⟨body, ending, rest, htext, hbody, hends, hlength⟩ :=
    lineCommentFrom_spec mark ((c :: cs).drop mark)
  have hbefore := h.isLineText hbody
  have hmark : ((c :: cs).take mark).length = mark := List.length_take_of_le h.le_length
  have hsplit : c :: cs = ((c :: cs).take mark ++ body) ++ (ending ++ rest) := by
    rw [List.append_assoc, ← htext, List.take_append_drop]
  generalize (c :: cs).take mark = front at hbefore hmark hsplit
  have hn : lineCommentLength mark (c :: cs) = (front ++ body ++ ending).length := by
    simp only [lineCommentLength, hlength, List.length_append, hmark]
    omega
  refine ⟨front ++ body, ending, hbefore, hends.eq_nil_or_mem_lineBreaks, ?_, ?_, hn⟩
  · rw [hsplit]
    exact hbefore.isFirstEnding hends
  · rw [hn, hsplit, ← List.append_assoc]
    exact List.take_left

theorem OpensLineComment.lineCommentLength_eq_iff {c : Char} {cs : List Char} {mark n : Nat}
    (h : OpensLineComment c cs mark) :
    lineCommentLength mark (c :: cs) = n ↔
      ∃ before ending, IsFirstEnding (c :: cs) before ending ∧
        (c :: cs).take n = before ++ ending ∧ n = (before ++ ending).length := by
  obtain ⟨before, ending, -, -, hfirst, htake, hlength⟩ := h.exists_isFirstEnding
  constructor
  · rintro rfl
    exact ⟨before, ending, hfirst, htake, hlength⟩
  · intro hn
    obtain ⟨before', ending', hfirst', -, rfl⟩ := hn
    obtain ⟨rfl, rfl⟩ := hfirst.unique hfirst'
    exact hlength

/-- No close tag stands in the comment: it would end the comment before it. -/
theorem IsFirstEnding.no_close {text before ending : List Char}
    (h : IsFirstEnding text before ending) : ¬ ['?', '>'] <:+: before ++ ending := by
  rintro ⟨x, y, hxy⟩
  obtain ⟨rest, htext, hends⟩ := h.ends
  have hclose : text = x ++ ([] ++ '?' :: '>' :: (y ++ rest)) := by
    rw [htext, ← List.append_assoc, ← hxy]
    simp
  have hle := h.length_le x [] _ hclose (.close _)
  -- So it would have to stand in the ending, which is a line break or empty.
  rw [List.append_assoc] at hxy
  obtain ⟨z, rfl⟩ : before <+: x :=
    List.prefix_of_prefix_length_le ⟨ending, rfl⟩ ⟨_, hxy⟩ hle
  rw [List.append_assoc, List.append_cancel_left_eq] at hxy
  have hmem : '>' ∈ ending := by
    rw [← hxy]
    simp
  cases hends with
  | newline hnewline => cases hnewline <;> simp at hmem
  | close _ => cases hmem
  | last => cases hmem

/-! ## Block comments -/

/-- The text ends with `*/` and has room for an opening before it. -/
structure EndsInClose (t : List Char) : Prop where
  length_ge : 4 ≤ t.length
  close : ['*', '/'] <:+ t

/-- `t` is the shortest head of the text that is closed. -/
structure IsShortestClosed (t text : List Char) : Prop where
  head : t <+: text
  closed : EndsInClose t
  length_le : ∀ x, x <+: text → EndsInClose x → t.length ≤ x.length

theorem IsShortestClosed.unique {t t' text : List Char} (h : IsShortestClosed t text)
    (h' : IsShortestClosed t' text) : t = t' := by
  have hlength : t.length = t'.length :=
    Nat.le_antisymm (h.length_le t' h'.head h'.closed) (h'.length_le t h.head h.closed)
  exact (List.prefix_of_prefix_length_le h.head h'.head (Nat.le_of_eq hlength)).eq_of_length hlength

/-- Behind the opening of a comment, being closed is to end with `*/`. -/
theorem endsInClose_open_iff {b : List Char} :
    EndsInClose ('/' :: '*' :: b) ↔ ['*', '/'] <:+ b := by
  constructor
  · intro h
    have hlength : 2 ≤ b.length := by
      have := h.length_ge
      simp only [List.length_cons] at this
      omega
    have hsuffix : b <:+ '/' :: '*' :: b := ⟨['/', '*'], rfl⟩
    exact List.suffix_of_suffix_length_le h.close hsuffix hlength
  · intro h
    refine ⟨?_, h.trans ⟨['/', '*'], rfl⟩⟩
    have := h.length_le
    simp only [List.length_cons, List.length_nil] at this ⊢
    omega

theorem EndsInClose.exists_open {t cs : List Char} (h : EndsInClose t)
    (hhead : t <+: '/' :: '*' :: cs) :
    ∃ b, t = '/' :: '*' :: b ∧ b <+: cs ∧ ['*', '/'] <:+ b := by
  match t, h.length_ge with
  | c :: d :: b, _ =>
      obtain ⟨rfl, htail⟩ := List.cons_prefix_cons.1 hhead
      obtain ⟨rfl, hb⟩ := List.cons_prefix_cons.1 htail
      exact ⟨b, rfl, hb, endsInClose_open_iff.1 h⟩

theorem IsBlockComment.isShortestClosed {t : List Char} (h : IsBlockComment t)
    (rest : List Char) : IsShortestClosed t (t ++ rest) := by
  obtain ⟨b, rfl, hb⟩ := h
  refine ⟨List.prefix_append _ rest, endsInClose_open_iff.2 hb.close, ?_⟩
  intro x hx hclosed
  refine Nat.le_of_not_lt fun hlt => ?_
  -- A shorter closed head would put a `*/` into the comment before its last.
  have hhead : x <+: '/' :: '*' :: b :=
    List.prefix_of_prefix_length_le hx (List.prefix_append _ rest) (Nat.le_of_lt hlt)
  obtain ⟨b', rfl, ⟨z, rfl⟩, y, rfl⟩ := hclosed.exists_open hhead
  have hz : z = [] := hb.first y z (by simp)
  simp [hz] at hlt

theorem blockCommentLength?_eq_none_iff {cs : List Char} :
    blockCommentLength? ('/' :: '*' :: cs) = none ↔
      ∀ t, t <+: '/' :: '*' :: cs → ¬ EndsInClose t := by
  rw [blockCommentLength?, List.drop_succ_cons, List.drop_succ_cons, List.drop_zero,
    blockCommentFrom?_eq_none_iff]
  constructor
  · intro h t ht hclosed
    obtain ⟨b, -, hb, hclose⟩ := hclosed.exists_open ht
    exact h (hclose.isInfix.trans hb.isInfix)
  · rintro h ⟨x, y, rfl⟩
    exact h ('/' :: '*' :: (x ++ ['*', '/'])) ⟨y, by simp⟩
      (endsInClose_open_iff.2 (List.suffix_append x _))

/-- The block comment of a text is its shortest closed head. -/
theorem blockCommentLength?_eq_some_iff {cs : List Char} {n : Nat} :
    blockCommentLength? ('/' :: '*' :: cs) = some n ↔
      ∃ t, n = t.length ∧ IsShortestClosed t ('/' :: '*' :: cs) := by
  constructor
  · intro h
    obtain ⟨t, rest, htext, rfl, ht⟩ := isBlockComment_of_blockCommentLength? h
    exact ⟨t, rfl, htext ▸ ht.isShortestClosed rest⟩
  · rintro ⟨t, rfl, ht⟩
    cases hn : blockCommentLength? ('/' :: '*' :: cs) with
    | none => exact absurd ht.closed (blockCommentLength?_eq_none_iff.1 hn t ht.head)
    | some m =>
        obtain ⟨u, rest, htext, rfl, hu⟩ := isBlockComment_of_blockCommentLength? hn
        have hshortest := hu.isShortestClosed rest
        rw [← htext] at hshortest
        rw [hshortest.unique ht]

/-! ## Comments as they are cut -/

theorem OpensLineComment.cutCode_eq_ok_iff [Limits] {pos : Position} {nameExpected : Bool}
    {c : Char} {cs : List Char} {mark : Nat} {cut : Cut} (h : OpensLineComment c cs mark) :
    cutCode pos nameExpected c cs = .ok cut ↔
      cut = ⟨some .comment, lineCommentLength mark (c :: cs)⟩ ∧
        Text.byteLength ((c :: cs).take cut.length) ≤ Limits.commentBytes := by
  have hcut : cutCode pos nameExpected c cs =
      cutComment .comment (lineCommentLength mark (c :: cs)) (c :: cs) := by
    cases h with
    | hash hc => exact CodeRule.eq (.hashComment hc)
    | slashes hc hcs => exact CodeRule.eq (.slashComment hc hcs)
  rw [hcut, cutComment_eq_ok_iff, and_comm]
  refine and_congr_right fun heq => ?_
  rw [heq]

/-- The kind of a block comment is settled by its own text. -/
theorem isDocComment_take {cs : List Char} {n : Nat}
    (h : blockCommentLength? ('/' :: '*' :: cs) = some n) :
    isDocComment ('/' :: '*' :: cs) = true ↔ OpensDoc (('/' :: '*' :: cs).take n) := by
  obtain ⟨t, rest, htext, rfl, ht⟩ := isBlockComment_of_blockCommentLength? h
  rw [htext, List.take_left, ht.isDocComment_append, isDocComment_iff]

theorem cutCode_blockComment_eq_ok_iff [Limits] {pos : Position} {nameExpected : Bool}
    {cs : List Char} {cut : Cut} :
    cutCode pos nameExpected '/' ('*' :: cs) = .ok cut ↔
      blockCommentLength? ('/' :: '*' :: cs) = some cut.length ∧
        Text.byteLength (('/' :: '*' :: cs).take cut.length) ≤ Limits.commentBytes ∧
        ((OpensDoc (('/' :: '*' :: cs).take cut.length) ∧ cut.type? = some .docComment) ∨
          (¬ OpensDoc (('/' :: '*' :: cs).take cut.length) ∧ cut.type? = some .comment)) := by
  rw [CodeRule.eq (.blockComment rfl rfl), cutBlockComment_eq_ok_iff]
  constructor
  · rintro ⟨n, hn, hsize, rfl⟩
    refine ⟨hn, hsize, ?_⟩
    rw [← isDocComment_take hn]
    split
    · next hdoc => exact .inl ⟨hdoc, rfl⟩
    · next hdoc => exact .inr ⟨hdoc, rfl⟩
  · rintro ⟨hn, hsize, htype⟩
    refine ⟨cut.length, hn, hsize, ?_⟩
    obtain ⟨type?, n⟩ := cut
    rw [← isDocComment_take hn] at htype
    rcases htype with ⟨hdoc, rfl⟩ | ⟨hdoc, rfl⟩
    · rw [if_pos hdoc]
    · rw [if_neg hdoc]

/-- A block comment is cut alike whatever follows it. -/
theorem cutCode_blockComment_congr [Limits] {pos : Position} {nameExpected : Bool}
    {b rest : List Char}
    {cut : Cut} (h : cutCode pos nameExpected '/' ('*' :: (b ++ rest)) = .ok cut)
    (hlength : cut.length = ('/' :: '*' :: b).length) (pos' : Position) (nameExpected' : Bool)
    (rest' : List Char) : cutCode pos' nameExpected' '/' ('*' :: (b ++ rest')) = .ok cut := by
  rw [cutCode_blockComment_eq_ok_iff, hlength] at h ⊢
  obtain ⟨hn, hsize, htype⟩ := h
  have hcomment : IsBlockComment ('/' :: '*' :: b) :=
    isBlockComment_of_length (t := '*' :: b) rfl rfl hn
  have htake : ∀ r, ('/' :: '*' :: (b ++ r)).take ('/' :: '*' :: b).length = '/' :: '*' :: b :=
    fun r => List.take_left
  rw [htake] at hsize htype ⊢
  exact ⟨hcomment.blockCommentLength?_append rest', hsize, htype⟩

/-- A line comment goes to the first line feed, carriage return or close tag, or to the end
of the text. It takes the line break with it, both characters of it if there are two, and
leaves the tag; so neither stands in it but for the line break at its end. A block comment
is the shortest closed head of the text, and it documents something just if its own text
begins like that, whatever follows it. -/
theorem comment_extent_and_kind [Limits] :
    (∀ (c : Char) (cs : List Char) (mark : Nat), OpensLineComment c cs mark →
      (∀ n, lineCommentLength mark (c :: cs) = n ↔
        ∃ before ending, IsFirstEnding (c :: cs) before ending ∧
          (c :: cs).take n = before ++ ending ∧ n = (before ++ ending).length) ∧
      (∃ before ending,
        (c :: cs).take (lineCommentLength mark (c :: cs)) = before ++ ending ∧
          '\n' ∉ before ∧ '\r' ∉ before ∧ (ending = [] ∨ ending ∈ lineBreaks) ∧
          ¬ ['?', '>'] <:+: before ++ ending) ∧
      ∀ pos nameExpected cut, cutCode pos nameExpected c cs = .ok cut ↔
        cut = ⟨some .comment, lineCommentLength mark (c :: cs)⟩ ∧
          Text.byteLength ((c :: cs).take cut.length) ≤ Limits.commentBytes) ∧
    (∀ cs : List Char,
      (∀ n, blockCommentLength? ('/' :: '*' :: cs) = some n ↔
        ∃ t, n = t.length ∧ IsShortestClosed t ('/' :: '*' :: cs)) ∧
      (blockCommentLength? ('/' :: '*' :: cs) = none ↔
        ∀ t, t <+: '/' :: '*' :: cs → ¬ EndsInClose t) ∧
      ∀ pos nameExpected cut, cutCode pos nameExpected '/' ('*' :: cs) = .ok cut ↔
        blockCommentLength? ('/' :: '*' :: cs) = some cut.length ∧
          Text.byteLength (('/' :: '*' :: cs).take cut.length) ≤ Limits.commentBytes ∧
          ((OpensDoc (('/' :: '*' :: cs).take cut.length) ∧ cut.type? = some .docComment) ∨
            (¬ OpensDoc (('/' :: '*' :: cs).take cut.length) ∧ cut.type? = some .comment))) ∧
    ∀ (b rest rest' : List Char) (pos pos' : Position) (nameExpected nameExpected' : Bool)
      (cut : Cut), cut.length = ('/' :: '*' :: b).length →
      cutCode pos nameExpected '/' ('*' :: (b ++ rest)) = .ok cut →
      cutCode pos' nameExpected' '/' ('*' :: (b ++ rest')) = .ok cut := by
  refine ⟨?_, ?_, ?_⟩
  · intro c cs mark hmark
    refine ⟨fun n => hmark.lineCommentLength_eq_iff, ?_,
      fun pos nameExpected cut => hmark.cutCode_eq_ok_iff⟩
    obtain ⟨before, ending, htext, hending, hfirst, htake, -⟩ := hmark.exists_isFirstEnding
    exact ⟨before, ending, htake, htext.no_feed, htext.no_return, hending, hfirst.no_close⟩
  · intro cs
    exact ⟨fun n => blockCommentLength?_eq_some_iff, blockCommentLength?_eq_none_iff,
      fun pos nameExpected cut => cutCode_blockComment_eq_ok_iff⟩
  · intro b rest rest' pos pos' nameExpected nameExpected' cut hlength hcut
    exact cutCode_blockComment_congr hcut hlength pos' nameExpected' rest'

/-- A line comment between a question mark and a tag that a line break keeps apart; and an
empty block comment, which documents nothing, though a blank stands behind it. -/
theorem comment_extent_and_kind_edges :
    (lineCommentLength 1 "#?\r\n?>".toList = 4 ∧
      ∃ before ending, IsFirstEnding "#?\r\n?>".toList before ending ∧
        "#?\r\n?>".toList.take 4 = before ++ ending ∧ 4 = (before ++ ending).length) ∧
    (cutCode .start false '/' "**/ */".toList = .ok ⟨some .comment, 4⟩ ∧
      cutCode .start true '/' "**/".toList = .ok ⟨some .comment, 4⟩) := by
  obtain ⟨hline, -, hkind⟩ := comment_extent_and_kind
  have hlength : lineCommentLength 1 "#?\r\n?>".toList = 4 := by decide
  have hcut : cutCode .start false '/' "**/ */".toList = .ok ⟨some .comment, 4⟩ := rfl
  exact ⟨⟨hlength, ((hline '#' "?\r\n?>".toList 1 (.hash rfl)).1 4).1 hlength⟩, hcut,
    hkind ['*', '/'] " */".toList [] .start .start false true _ rfl hcut⟩

end PhpTokens.Lexer
