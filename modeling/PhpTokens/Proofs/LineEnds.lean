import PhpTokens.Proofs.Delimited
import PhpTokens.Proofs.Number
import PhpTokens.Proofs.Tag

/-!
# Line feeds written as pairs

`crlf` writes a carriage return before every line feed. The text grows, and the
places in it move: the place behind the first `k` characters of `cs` goes to
`spread cs k`. Whatever the lexer measures in a text without carriage returns of
its own moves along. An extent in the longer text is the spread of the extent in
the shorter one, so it never ends between the two characters of a pair.

The searches are loops that count as they go, and the two counts of a loop run
apart at every line feed. `SamePlace` is the invariant that holds them together:
both loops have come to the same place from where they began. A step over a line
feed is one step here and two steps there (`SamePlace.feed`), any other step is
one in both (`SamePlace.char`).
-/

namespace PhpTokens.Text

/-- The text with a carriage return before every line feed. -/
def crlf (cs : List Char) : List Char :=
  cs.flatMap fun c => if c = '\n' then ['\r', '\n'] else [c]

@[simp] theorem crlf_nil : crlf [] = [] := rfl

@[simp] theorem crlf_feed (cs : List Char) : crlf ('\n' :: cs) = '\r' :: '\n' :: crlf cs := rfl

theorem crlf_cons {c : Char} (hc : c ≠ '\n') (cs : List Char) :
    crlf (c :: cs) = c :: crlf cs := by
  rw [crlf, List.flatMap_cons, if_neg hc]
  rfl

@[simp] theorem crlf_append (xs ys : List Char) : crlf (xs ++ ys) = crlf xs ++ crlf ys :=
  List.flatMap_append

theorem crlf_eq_self {t : List Char} (h : '\n' ∉ t) : crlf t = t := by
  induction t with
  | nil => rfl
  | cons c t ih =>
      rw [crlf_cons (List.ne_of_not_mem_cons h).symm, ih (List.not_mem_of_not_mem_cons h)]

theorem crlf_eq_nil_iff {cs : List Char} : crlf cs = [] ↔ cs = [] := by
  cases cs with
  | nil => simp
  | cons c cs =>
      by_cases hc : c = '\n'
      · simp [hc]
      · simp [crlf_cons hc]

/-- A head of the longer text without carriage returns is a head of the shorter text. -/
theorem exists_of_crlf_eq_append {cs t r' : List Char} (ht : '\r' ∉ t)
    (h : crlf cs = t ++ r') : ∃ r, cs = t ++ r ∧ r' = crlf r := by
  induction t generalizing cs with
  | nil => exact ⟨cs, rfl, h.symm⟩
  | cons d t ih =>
      cases cs with
      | nil => cases h
      | cons c cs =>
          by_cases hc : c = '\n'
          · subst hc
            obtain ⟨rfl, -⟩ := List.cons.inj h
            exact absurd List.mem_cons_self ht
          · rw [crlf_cons hc] at h
            obtain ⟨rfl, hcs⟩ := List.cons.inj h
            obtain ⟨r, rfl, hr⟩ := ih (List.not_mem_of_not_mem_cons ht) hcs
            exact ⟨r, rfl, hr⟩

theorem eq_cons_of_crlf {cs ds : List Char} {d : Char} (hd : d ≠ '\r') (h : crlf cs = d :: ds) :
    ∃ r, cs = d :: r ∧ ds = crlf r :=
  exists_of_crlf_eq_append (t := [d]) (by simpa using hd.symm) h

theorem head?_crlf_eq_iff {cs : List Char} {d : Char} (hreturn : d ≠ '\r') (hfeed : d ≠ '\n') :
    (crlf cs).head? = some d ↔ cs.head? = some d := by
  refine ⟨fun h => ?_, fun h => ?_⟩
  · obtain ⟨ds, hds⟩ := List.head?_eq_some_iff.1 h
    obtain ⟨r, rfl, -⟩ := eq_cons_of_crlf hreturn hds
    rfl
  · obtain ⟨r, rfl⟩ := List.head?_eq_some_iff.1 h
    rw [crlf_cons hfeed]
    rfl

theorem prefix_crlf_iff {cs x : List Char} (hreturn : '\r' ∉ x) (hfeed : '\n' ∉ x) :
    x <+: crlf cs ↔ x <+: cs := by
  refine ⟨fun h => ?_, fun h => ?_⟩
  · obtain ⟨r', hr'⟩ := h
    obtain ⟨r, rfl, -⟩ := exists_of_crlf_eq_append hreturn hr'.symm
    exact List.prefix_append x r
  · obtain ⟨r, rfl⟩ := h
    rw [crlf_append, crlf_eq_self hfeed]
    exact List.prefix_append x (crlf r)

section Class

variable {p : Char → Bool}

/-- A class that holds both characters of a pair, or neither, does not see the pairs. -/
theorem any_head?_crlf (hp : p '\r' = p '\n') (cs : List Char) :
    (crlf cs).head?.any p = cs.head?.any p := by
  cases cs with
  | nil => rfl
  | cons c cs =>
      by_cases hc : c = '\n'
      · subst hc
        exact hp
      · rw [crlf_cons hc]
        rfl

theorem takeWhile_crlf (hp : p '\r' = p '\n') (cs : List Char) :
    (crlf cs).takeWhile p = crlf (cs.takeWhile p) := by
  induction cs with
  | nil => rfl
  | cons c cs ih =>
      by_cases hc : c = '\n'
      · subst hc
        rw [crlf_feed, List.takeWhile_cons, List.takeWhile_cons, List.takeWhile_cons, hp, ih]
        split
        · rw [crlf_feed]
        · rfl
      · rw [crlf_cons hc, List.takeWhile_cons, List.takeWhile_cons, ih]
        split
        · rw [crlf_cons hc]
        · rfl

theorem takeWhile_crlf_of_not (hreturn : p '\r' = false) (hfeed : p '\n' = false)
    (cs : List Char) : (crlf cs).takeWhile p = cs.takeWhile p := by
  rw [takeWhile_crlf (hreturn.trans hfeed.symm), crlf_eq_self]
  intro hmem
  rw [List.all_eq_true.1 List.all_takeWhile _ hmem] at hfeed
  cases hfeed

end Class

theorem byteLength_le_crlf (cs : List Char) : byteLength cs ≤ byteLength (crlf cs) := by
  induction cs with
  | nil => exact Nat.le_refl _
  | cons c cs ih =>
      by_cases hc : c = '\n'
      · subst hc
        rw [crlf_feed, byteLength_cons, byteLength_cons, byteLength_cons]
        omega
      · rw [crlf_cons hc, byteLength_cons, byteLength_cons]
        omega

/-! ## Places -/

/-- Where the place behind the first `k` characters goes. -/
def spread (cs : List Char) (k : Nat) : Nat := (crlf (cs.take k)).length

theorem crlf_eq_take_append_drop (cs : List Char) (k : Nat) :
    crlf cs = crlf (cs.take k) ++ crlf (cs.drop k) := by
  rw [← crlf_append, List.take_append_drop]

theorem take_crlf (cs : List Char) (k : Nat) : (crlf cs).take (spread cs k) = crlf (cs.take k) := by
  rw [crlf_eq_take_append_drop cs k, spread, List.take_left]

theorem drop_crlf (cs : List Char) (k : Nat) : (crlf cs).drop (spread cs k) = crlf (cs.drop k) := by
  rw [crlf_eq_take_append_drop cs k, spread, List.drop_left]

theorem spread_length (cs : List Char) : spread cs cs.length = (crlf cs).length := by
  rw [spread, List.take_length]

theorem spread_append (t r : List Char) : spread (t ++ r) t.length = (crlf t).length := by
  rw [spread, List.take_left]

theorem spread_append_of_not_mem {t : List Char} (h : '\n' ∉ t) (r : List Char) :
    spread (t ++ r) t.length = t.length := by
  rw [spread_append, crlf_eq_self h]

theorem spread_add (cs : List Char) (m n : Nat) :
    spread cs (m + n) = spread cs m + spread (cs.drop m) n := by
  rw [spread, List.take_add, crlf_append, List.length_append]
  rfl

theorem spread_feed (cs : List Char) (k : Nat) :
    spread ('\n' :: cs) (k + 1) = spread cs k + 2 := rfl

theorem spread_cons {c : Char} (hc : c ≠ '\n') (cs : List Char) (k : Nat) :
    spread (c :: cs) (k + 1) = spread cs k + 1 := by
  rw [spread, List.take_succ_cons, crlf_cons hc, List.length_cons, spread]

/-- From `n` in `cs` and from `n'` in the longer text, `k` and `k'` are the same place. -/
def SamePlace (cs : List Char) (n n' k k' : Nat) : Prop :=
  ∃ m, k = n + m ∧ k' = n' + spread cs m

namespace SamePlace

variable {cs : List Char} {n n' k k' : Nat}

theorem here : SamePlace cs n n' n n' := ⟨0, rfl, rfl⟩

theorem feed (h : SamePlace cs (n + 1) (n' + 2) k k') : SamePlace ('\n' :: cs) n n' k k' := by
  obtain ⟨m, rfl, rfl⟩ := h
  refine ⟨m + 1, by omega, ?_⟩
  rw [spread_feed]
  omega

theorem char {c : Char} (hc : c ≠ '\n') (h : SamePlace cs (n + 1) (n' + 1) k k') :
    SamePlace (c :: cs) n n' k k' := by
  obtain ⟨m, rfl, rfl⟩ := h
  refine ⟨m + 1, by omega, ?_⟩
  rw [spread_cons hc]
  omega

theorem eq_spread (hn : spread cs n = n') (h : SamePlace (cs.drop n) n n' k k') :
    k' = spread cs k := by
  obtain ⟨m, rfl, rfl⟩ := h
  rw [spread_add, hn]

/-! A search may also fail, and then both do. -/

variable {a b : Option Nat}

theorem rel_feed (h : Option.Rel (SamePlace cs (n + 1) (n' + 2)) a b) :
    Option.Rel (SamePlace ('\n' :: cs) n n') a b := by
  cases h with
  | some h => exact .some h.feed
  | none => exact .none

theorem rel_char {c : Char} (hc : c ≠ '\n')
    (h : Option.Rel (SamePlace cs (n + 1) (n' + 1)) a b) :
    Option.Rel (SamePlace (c :: cs) n n') a b := by
  cases h with
  | some h => exact .some (h.char hc)
  | none => exact .none

theorem eq_map_spread (hn : spread cs n = n')
    (h : Option.Rel (SamePlace (cs.drop n) n n') a b) : b = a.map (spread cs) := by
  cases h with
  | some h => rw [h.eq_spread hn, Option.map_some]
  | none => rfl

end SamePlace

end PhpTokens.Text

namespace PhpTokens.Lexer

open Text

/-! ## Runs, line breaks and comments -/

theorem runLength_crlf {p : Char → Bool} (hp : p '\r' = p '\n') (cs : List Char) :
    runLength p (crlf cs) = spread cs (runLength p cs) := by
  have hplace := spread_append (cs.takeWhile p) (cs.dropWhile p)
  rw [List.takeWhile_append_dropWhile] at hplace
  rw [runLength, takeWhile_crlf hp, runLength, hplace]

theorem lineBreakLength_crlf {cs : List Char} (h : '\r' ∉ cs) :
    lineBreakLength (crlf cs) = spread cs (lineBreakLength cs) := by
  cases cs with
  | nil => rfl
  | cons c cs =>
      by_cases hc : c = '\n'
      · subst hc
        rfl
      · have hreturn : c ≠ '\r' := (List.ne_of_not_mem_cons h).symm
        have hzero : ∀ cs, lineBreakLength (c :: cs) = 0 := by
          intro cs
          simp [lineBreakLength, hc, hreturn]
        rw [crlf_cons hc, hzero, hzero]
        rfl

theorem lineCommentFrom_crlf {cs : List Char} (h : '\r' ∉ cs) (n n' : Nat) :
    SamePlace cs n n' (lineCommentFrom n cs) (lineCommentFrom n' (crlf cs)) := by
  fun_induction lineCommentFrom n cs generalizing n' with
  | case1 n => exact .here
  | case2 n cs => exact .feed .here
  | case3 n cs => exact absurd List.mem_cons_self h
  | case4 n cs _ => exact absurd List.mem_cons_self h
  | case5 n cs => exact .here
  | case6 n c cs hfeed _ hreturn hclose ih =>
      have hskip : ¬ (c = '?' ∧ (crlf cs).head? = some '>') := by
        rw [head?_crlf_eq_iff (by decide) (by decide)]
        intro hc
        obtain ⟨after, rfl⟩ := List.head?_eq_some_iff.1 hc.2
        exact hclose after hc.1 rfl
      rw [crlf_cons hfeed, lineCommentFrom_skip hfeed hreturn hskip]
      exact .char hfeed (ih (List.not_mem_of_not_mem_cons h) (n' + 1))

/-- The mark of the comment has no line feed in it, so the loops begin at the same count. -/
theorem lineCommentLength_crlf {mark : Nat} {cs : List Char} (h : '\r' ∉ cs)
    (hmark : spread cs mark = mark) :
    lineCommentLength mark (crlf cs) = spread cs (lineCommentLength mark cs) := by
  have hdrop := drop_crlf cs mark
  have hreturn : '\r' ∉ cs.drop mark := fun hmem => h (List.mem_of_mem_drop hmem)
  rw [hmark] at hdrop
  rw [lineCommentLength, hdrop]
  exact SamePlace.eq_spread hmark (lineCommentFrom_crlf hreturn mark mark)

theorem blockCommentFrom?_crlf (cs : List Char) (n n' : Nat) :
    Option.Rel (SamePlace cs n n') (blockCommentFrom? n cs) (blockCommentFrom? n' (crlf cs)) := by
  fun_induction blockCommentFrom? n cs generalizing n' with
  | case1 n => exact .none
  | case2 n cs => exact .some (.char (by decide) (.char (by decide) .here))
  | case3 n c cs hclose ih =>
      by_cases hc : c = '\n'
      · subst hc
        rw [crlf_feed, blockCommentFrom?_skip (by simp), blockCommentFrom?_skip (by simp)]
        exact SamePlace.rel_feed (ih (n' + 2))
      · have hskip : ¬ (c = '*' ∧ (crlf cs).head? = some '/') := by
          rw [head?_crlf_eq_iff (by decide) (by decide)]
          intro hstar
          obtain ⟨after, rfl⟩ := List.head?_eq_some_iff.1 hstar.2
          exact hclose after hstar.1 rfl
        rw [crlf_cons hc, blockCommentFrom?_skip hskip]
        exact SamePlace.rel_char hc (ih (n' + 1))

theorem blockCommentLength?_crlf {cs : List Char} (hmark : spread cs 2 = 2) :
    blockCommentLength? (crlf cs) = (blockCommentLength? cs).map (spread cs) := by
  have hdrop := drop_crlf cs 2
  rw [hmark] at hdrop
  rw [blockCommentLength?, hdrop]
  exact SamePlace.eq_map_spread hmark (blockCommentFrom?_crlf (cs.drop 2) 2 2)

theorem isDocComment_crlf (cs : List Char) : isDocComment (crlf cs) = isDocComment cs := by
  have hhead := any_head?_crlf (p := isBlank) rfl
  rw [Bool.eq_iff_iff, isDocComment_iff, isDocComment_iff]
  refine ⟨fun h => ?_, fun h => ?_⟩
  · obtain ⟨d, after, hcs, hd⟩ := h
    obtain ⟨r, rfl, hr⟩ := exists_of_crlf_eq_append (t := ['/', '*', '*']) (by decide) hcs
    cases r with
    | nil => cases hr
    | cons c r =>
        have hc := hhead (c :: r)
        rw [← hr] at hc
        exact ⟨c, r, rfl, hc.symm.trans hd⟩
  · obtain ⟨c, after, rfl, hc⟩ := h
    have hd := hhead (c :: after)
    show OpensDoc ('/' :: '*' :: '*' :: crlf (c :: after))
    cases hafter : crlf (c :: after) with
    | nil => cases crlf_eq_nil_iff.1 hafter
    | cons d ds =>
        rw [hafter] at hd
        exact ⟨d, ds, rfl, hd.trans hc⟩

/-! ## String literals -/

/-- A backslash takes the carriage return with it, and the line feed behind is then as
plain as any character. -/
theorem quotedFrom?_crlf {q : Char} (hescape : q ≠ '\\') (hreturn : q ≠ '\r') (hfeed : q ≠ '\n')
    (cs : List Char) (n n' : Nat) :
    Option.Rel (SamePlace cs n n') (quotedFrom? q n cs) (quotedFrom? q n' (crlf cs)) := by
  have hpair : ∀ n cs, quotedFrom? q n ('\r' :: '\n' :: cs) = quotedFrom? q (n + 2) cs := by
    intro n cs
    rw [quotedFrom?_skip (by decide) hreturn.symm, quotedFrom?_skip (by decide) hfeed.symm]
  fun_induction quotedFrom? q n cs generalizing n' with
  | case1 n => exact .none
  | case2 n =>
      rw [crlf_cons hfeed, quotedFrom?_close hescape]
      exact .some (.char hfeed .here)
  | case3 n c hc =>
      by_cases hline : c = '\n'
      · subst hline
        rw [crlf_feed, hpair]
        exact .none
      · rw [crlf_cons hline, crlf_nil, quotedFrom?, if_neg hc]
        exact .none
  | case4 n d cs ih =>
      rw [crlf_cons (by decide)]
      refine SamePlace.rel_char (by decide) ?_
      by_cases hd : d = '\n'
      · subst hd
        rw [crlf_feed, quotedFrom?, if_pos rfl, quotedFrom?_skip (by decide) hfeed.symm]
        exact SamePlace.rel_feed (ih (n' + 3))
      · rw [crlf_cons hd, quotedFrom?, if_pos rfl]
        exact SamePlace.rel_char hd (ih (n' + 2))
  | case5 n d cs _ =>
      rw [crlf_cons hfeed, quotedFrom?_close hescape]
      exact .some (.char hfeed .here)
  | case6 n c d cs hslash hc ih =>
      by_cases hline : c = '\n'
      · subst hline
        rw [crlf_feed, hpair]
        exact SamePlace.rel_feed (ih (n' + 2))
      · rw [crlf_cons hline, quotedFrom?_skip hslash hc]
        exact SamePlace.rel_char hline (ih (n' + 1))

theorem quotedLength?_crlf {q : Char} (hq : q = '\'' ∨ q = '"') (cs : List Char) :
    quotedLength? (crlf (q :: cs)) = (quotedLength? (q :: cs)).map (spread (q :: cs)) := by
  have hescape : q ≠ '\\' := by rcases hq with rfl | rfl <;> decide
  have hreturn : q ≠ '\r' := by rcases hq with rfl | rfl <;> decide
  have hfeed : q ≠ '\n' := by rcases hq with rfl | rfl <;> decide
  have hmark : spread (q :: cs) 1 = 1 := spread_cons hfeed cs 0
  rw [crlf_cons hfeed]
  exact SamePlace.eq_map_spread hmark (quotedFrom?_crlf hescape hreturn hfeed cs 1 1)

theorem IsLineBreak.to_crlf {newline body : List Char} (h : IsLineBreak newline body)
    (hreturn : '\r' ∉ newline) : IsLineBreak (crlf newline) (crlf body) := by
  cases h with
  | pair _ => exact absurd List.mem_cons_self hreturn
  | feed body => exact .pair (crlf body)
  | carriage _ => exact absurd List.mem_cons_self hreturn

/-- A line break of the longer text is a pair. -/
theorem IsLineBreak.of_crlf {newline body r : List Char} (h : IsLineBreak newline body)
    (hr : newline ++ body = crlf r) (hreturn : '\r' ∉ r) :
    ∃ after, r = '\n' :: after ∧ newline = ['\r', '\n'] ∧ body = crlf after := by
  have hhead : r.head? = some '\n' := by
    have hpos : 0 < lineBreakLength (crlf r) := by
      rw [← hr, lineBreakLength_append h]
      exact List.length_pos_iff.2 h.ne_nil
    rw [lineBreakLength_crlf hreturn] at hpos
    have hplain : 0 < lineBreakLength r := by
      refine Nat.pos_of_ne_zero fun hzero => ?_
      rw [hzero] at hpos
      exact absurd hpos (Nat.lt_irrefl 0)
    rcases lineBreakLength_pos_iff.1 hplain with hhead | hhead
    · exact absurd (List.mem_of_mem_head? hhead) hreturn
    · exact hhead
  obtain ⟨after, rfl⟩ := List.head?_eq_some_iff.1 hhead
  rw [crlf_feed] at hr
  cases h with
  | pair _ =>
      cases hr
      exact ⟨after, rfl, rfl, rfl⟩
  | feed _ => cases hr
  | carriage hbody =>
      cases hr
      exact absurd rfl hbody

theorem feed_not_mem_of_class {p : Char → Bool} {t : List Char} (ht : ∀ c ∈ t, p c = true)
    (hp : p '\n' = false) : '\n' ∉ t := fun hmem => ne_of_class (ht _ hmem) hp rfl

theorem return_not_mem_of_class {p : Char → Bool} {t : List Char} (ht : ∀ c ∈ t, p c = true)
    (hp : p '\r' = false) : '\r' ∉ t := fun hmem => ne_of_class (ht _ hmem) hp rfl

/-- A header is one line: all of it but the line break has no line end in it. -/
theorem IsHeader.exists_front {label header body : List Char} (h : IsHeader label header body) :
    ∃ front newline, header = front ++ newline ∧ '\n' ∉ front ∧ '\r' ∉ front ∧
      IsLineBreak newline body ∧
      ∀ newline' body', IsLineBreak newline' body' → IsHeader label (front ++ newline') body' := by
  cases h with
  | @mk indent quote newline _ hindent hquote hlabel hnewline =>
      have hfeed : '\n' ∉ quote := by rcases hquote with rfl | rfl | rfl <;> decide
      have hreturn : '\r' ∉ quote := by rcases hquote with rfl | rfl | rfl <;> decide
      refine ⟨'<' :: '<' :: '<' :: (indent ++ (quote ++ (label ++ quote))), newline, ?_, ?_, ?_,
        hnewline, ?_⟩
      · simp only [List.cons_append, List.append_assoc]
      · simp [hfeed, feed_not_mem_of_class hindent (by decide),
          feed_not_mem_of_class hlabel.all (by decide)]
      · simp [hreturn, return_not_mem_of_class hindent (by decide),
          return_not_mem_of_class hlabel.all (by decide)]
      · intro newline' body' hnewline'
        have hheader := IsHeader.mk hindent hquote hlabel hnewline'
        simpa only [List.cons_append, List.append_assoc] using hheader

theorem IsHeader.to_crlf {label header body : List Char} (h : IsHeader label header body)
    (hreturn : '\r' ∉ header) : IsHeader label (crlf header) (crlf body) := by
  obtain ⟨front, newline, rfl, hfeed, -, hnewline, hmake⟩ := h.exists_front
  rw [crlf_append, crlf_eq_self hfeed]
  exact hmake _ _ (hnewline.to_crlf fun hmem => hreturn (List.mem_append_right front hmem))

theorem IsHeader.of_crlf {label header body cs : List Char} (h : IsHeader label header body)
    (hcs : crlf cs = header ++ body) (hreturn : '\r' ∉ cs) :
    ∃ header' body', cs = header' ++ body' ∧ IsHeader label header' body' := by
  obtain ⟨front, newline, rfl, -, hfront, hnewline, hmake⟩ := h.exists_front
  rw [List.append_assoc] at hcs
  obtain ⟨r, rfl, hr⟩ := exists_of_crlf_eq_append hfront hcs
  obtain ⟨after, rfl, -, -⟩ :=
    hnewline.of_crlf hr fun hmem => hreturn (List.mem_append_right front hmem)
  exact ⟨front ++ ['\n'], after, by simp, hmake _ _ (.feed after)⟩

theorem heredocHeader?_crlf {cs : List Char} (h : '\r' ∉ cs) :
    heredocHeader? (crlf cs) =
      (heredocHeader? cs).map fun found => (spread cs found.1, found.2) := by
  cases hplain : heredocHeader? cs with
  | some found =>
      obtain ⟨n, label⟩ := found
      obtain ⟨header, body, rfl, rfl, hheader⟩ := heredocHeader?_eq_some_iff.1 hplain
      have hpairs := hheader.to_crlf fun hmem => h (List.mem_append_left body hmem)
      rw [crlf_append, hpairs.heredocHeader?_append, Option.map_some, spread_append]
  | none =>
      refine Option.eq_none_iff_forall_ne_some.2 fun found hfound => ?_
      obtain ⟨header, body, hcs, -, hheader⟩ := heredocHeader?_eq_some_iff.1 hfound
      obtain ⟨header', body', rfl, hheader'⟩ := hheader.of_crlf hcs h
      rw [hheader'.heredocHeader?_append] at hplain
      cases hplain

/-- A closing label is the same in both texts, and as long. -/
theorem closingLabel?_crlf {label : List Char} (hlabel : IsName label) (cs : List Char) :
    closingLabel? label (crlf cs) = closingLabel? label cs := by
  refine Option.ext fun m => ?_
  rw [closingLabel?_eq_some_iff hlabel, closingLabel?_eq_some_iff hlabel]
  refine ⟨fun h => ?_, fun h => ?_⟩
  · obtain ⟨indent, rest, hcs, hindent, hstop, hm⟩ := h
    obtain ⟨r, rfl, hr⟩ :=
      exists_of_crlf_eq_append (return_not_mem_of_class hindent (by decide)) hcs
    obtain ⟨r, rfl, rfl⟩ :=
      exists_of_crlf_eq_append (return_not_mem_of_class hlabel.all (by decide)) hr.symm
    rw [any_head?_crlf (by decide)] at hstop
    exact ⟨indent, r, rfl, hindent, hstop, hm⟩
  · obtain ⟨indent, rest, rfl, hindent, hstop, hm⟩ := h
    refine ⟨indent, crlf rest, ?_, hindent, ?_, hm⟩
    · rw [crlf_append, crlf_append, crlf_eq_self (feed_not_mem_of_class hindent (by decide)),
        crlf_eq_self (feed_not_mem_of_class hlabel.all (by decide))]
    · rw [any_head?_crlf (by decide)]
      exact hstop

theorem spread_of_closingLabel? {label cs : List Char} {m : Nat} (hlabel : IsName label)
    (h : closingLabel? label cs = some m) : spread cs m = m := by
  obtain ⟨indent, rest, rfl, hindent, -, rfl⟩ := (closingLabel?_eq_some_iff hlabel).1 h
  rw [← List.append_assoc, ← List.length_append]
  refine spread_append_of_not_mem ?_ rest
  simp [feed_not_mem_of_class hindent (by decide), feed_not_mem_of_class hlabel.all (by decide)]

/-- A line begins behind the line feed in both texts, and not behind the carriage return
in the longer one. -/
theorem heredocBodyFrom?_crlf {label : List Char} (hlabel : IsName label) (cs : List Char)
    (before : Bool) (n n' : Nat) :
    Option.Rel (SamePlace cs n n') (heredocBodyFrom? label n before cs)
      (heredocBodyFrom? label n' before (crlf cs)) := by
  induction cs generalizing before n n' with
  | nil =>
      have hnone : closingLabel? label [] = none := by
        refine Option.eq_none_iff_forall_ne_some.2 fun m hm => ?_
        have hbody := heredocBodyFrom?_bounds hlabel (heredocBodyFrom?_close hm 0)
        rw [List.length_nil] at hbody
        omega
      cases before with
      | false => exact .none
      | true =>
          rw [crlf_nil, heredocBodyFrom?, heredocBodyFrom?, hnone]
          exact .none
  | cons c cs ih =>
      by_cases hc : c = '\n'
      · subst hc
        rw [crlf_feed,
          heredocBodyFrom?_skip fun _ => closingLabel?_eq_none hlabel (by decide) (by decide) _,
          heredocBodyFrom?_skip fun _ => closingLabel?_eq_none hlabel (by decide) (by decide) _,
          heredocBodyFrom?_skip fun h => absurd h (by decide)]
        exact SamePlace.rel_feed (ih true (n + 1) (n' + 2))
      · have hpairs := closingLabel?_crlf hlabel (c :: cs)
        rw [crlf_cons hc] at hpairs ⊢
        by_cases hclosing : before = true → closingLabel? label (c :: cs) = none
        · rw [heredocBodyFrom?_skip hclosing,
            heredocBodyFrom?_skip fun hbefore => hpairs.trans (hclosing hbefore)]
          exact SamePlace.rel_char hc (ih (c == '\n') (n + 1) (n' + 1))
        · obtain ⟨rfl, hsome⟩ := Classical.not_imp.1 hclosing
          obtain ⟨m, hm⟩ := Option.ne_none_iff_exists'.1 hsome
          rw [heredocBodyFrom?_close hm, heredocBodyFrom?_close (hpairs.trans hm)]
          exact .some ⟨m, rfl, by rw [spread_of_closingLabel? hlabel hm]⟩

theorem heredocBodyLength?_crlf {label : List Char} (hlabel : IsName label) (cs : List Char) :
    heredocBodyLength? label (crlf cs) = (heredocBodyLength? label cs).map (spread cs) :=
  SamePlace.eq_map_spread rfl (heredocBodyFrom?_crlf hlabel cs true 0 0)

/-! ## Numbers and operators -/

/-- A class of texts without line ends has the same longest match. -/
theorem isLongest_crlf_iff {P : List Char → Prop} (hP : ∀ x, P x → '\r' ∉ x ∧ '\n' ∉ x)
    {t cs : List Char} : IsLongest P t (crlf cs) ↔ IsLongest P t cs := by
  have hhead : ∀ x, P x → (x <+: crlf cs ↔ x <+: cs) := fun x hx =>
    prefix_crlf_iff (hP x hx).1 (hP x hx).2
  refine ⟨fun h => ?_, fun h => ?_⟩
  · exact ⟨(hhead t h.holds).1 h.head, h.holds,
      fun x hx hPx => h.length_le x ((hhead x hPx).2 hx) hPx⟩
  · exact ⟨(hhead t h.holds).2 h.head, h.holds,
      fun x hx hPx => h.length_le x ((hhead x hPx).1 hx) hPx⟩

theorem IsNumeral.line_not_mem {t : List Char} (h : IsNumeral t) : '\r' ∉ t ∧ '\n' ∉ t :=
  ⟨return_not_mem_of_class h.mem (by decide), feed_not_mem_of_class h.mem (by decide)⟩

theorem opensNumber_crlf_iff {cs : List Char} : OpensNumber (crlf cs) ↔ OpensNumber cs := by
  rw [OpensNumber, OpensNumber, any_head?_crlf (by decide)]
  refine or_congr_right ⟨fun h => ?_, fun h => ?_⟩
  · obtain ⟨after, hcs, hafter⟩ := h
    obtain ⟨r, rfl, rfl⟩ := eq_cons_of_crlf (by decide) hcs
    rw [any_head?_crlf (by decide)] at hafter
    exact ⟨r, rfl, hafter⟩
  · obtain ⟨after, rfl, hafter⟩ := h
    exact ⟨crlf after, crlf_cons (by decide) after, by rwa [any_head?_crlf (by decide)]⟩

theorem number_crlf {cs : List Char} (h : OpensNumber cs) : number (crlf cs) = number cs := by
  obtain ⟨type, t, hnumber, htype, hlongest⟩ := number_spec h
  rw [hnumber, number_eq_iff (opensNumber_crlf_iff.2 h)]
  exact ⟨t, rfl, htype, (isLongest_crlf_iff fun _ => IsNumeral.line_not_mem).2 hlongest⟩

theorem spread_number {cs : List Char} (h : OpensNumber cs) :
    spread cs (number cs).2 = (number cs).2 := by
  obtain ⟨type, t, hnumber, -, hlongest⟩ := number_spec h
  obtain ⟨r, rfl⟩ := hlongest.head
  rw [hnumber, spread_append_of_not_mem hlongest.holds.line_not_mem.2]

theorem line_not_mem_of_isSymbol {t : List Char} (h : Operator.IsSymbol t) :
    '\r' ∉ t ∧ '\n' ∉ t := by
  have hsymbol := Operator.of_isSymbol (p := fun t => decide ('\r' ∉ t ∧ '\n' ∉ t)) h
    (by decide)
  exact of_decide_eq_true hsymbol

theorem leading?_crlf (cs : List Char) : Operator.leading? (crlf cs) = Operator.leading? cs := by
  refine Option.ext fun found => ?_
  obtain ⟨o, n⟩ := found
  rw [Operator.leading?_eq_some_iff, Operator.leading?_eq_some_iff]
  simp only [isLongest_crlf_iff fun _ => line_not_mem_of_isSymbol]

theorem spread_of_leading? {cs : List Char} {o : Operator} {n : Nat}
    (h : Operator.leading? cs = some (o, n)) : spread cs n = n := by
  obtain ⟨t, rfl, -, hlongest⟩ := Operator.leading?_eq_some_iff.1 h
  obtain ⟨r, rfl⟩ := hlongest.head
  exact spread_append_of_not_mem (line_not_mem_of_isSymbol hlongest.holds).2 r

/-! ## Tags -/

theorem IsPhp.line_not_mem {a b c : Char} (h : IsPhp a b c) : '\r' ∉ [a, b, c] ∧ '\n' ∉ [a, b, c] :=
  ⟨h.not_mem (by decide) (by decide), h.not_mem (by decide) (by decide)⟩

theorem IsOpenTag.to_crlf {type : TokenType} {tag after : List Char} (h : IsOpenTag type tag after)
    (hreturn : '\r' ∉ tag) : IsOpenTag type (crlf tag) (crlf after) := by
  cases h with
  | echo after => exact .echo (crlf after)
  | last hphp =>
      rw [crlf_eq_self (by simpa using hphp.line_not_mem.2)]
      exact .last hphp
  | pair hphp after => exact absurd (by simp) hreturn
  | @blank a b c d after hphp hd hafter =>
      have hfront : crlf ['<', '?', a, b, c, d] = ['<', '?', a, b, c] ++ crlf [d] := by
        rw [← crlf_eq_self (t := ['<', '?', a, b, c]) (by simpa using hphp.line_not_mem.2),
          ← crlf_append]
        rfl
      rw [hfront]
      by_cases hline : d = '\n'
      · subst hline
        exact .pair hphp (crlf after)
      · rw [crlf_cons hline]
        refine .blank hphp hd fun hd => absurd ?_ hreturn
        simp [hd]

theorem beginsCode_of_crlf {cs : List Char} (h : BeginsCode (crlf cs)) : BeginsCode cs := by
  rcases h with ⟨after, heq⟩ | ⟨a, b, c, after, heq, hphp, hafter⟩
  · obtain ⟨r, rfl, -⟩ := exists_of_crlf_eq_append (t := ['<', '?', '=']) (by decide) heq
    exact .inl ⟨r, rfl⟩
  · obtain ⟨r, rfl, rfl⟩ := exists_of_crlf_eq_append (t := ['<', '?', a, b, c])
      (by simpa using hphp.line_not_mem.1) heq
    rw [crlf_eq_nil_iff, any_head?_crlf (by decide)] at hafter
    exact .inr ⟨a, b, c, r, rfl, hphp, hafter⟩

theorem openTag?_crlf {cs : List Char} (h : '\r' ∉ cs) :
    openTag? (crlf cs) = (openTag? cs).map fun found => (found.1, spread cs found.2) := by
  cases hplain : openTag? cs with
  | some found =>
      obtain ⟨type, n⟩ := found
      obtain ⟨tag, after, rfl, rfl, htag⟩ := openTag?_eq_some_iff.1 hplain
      have hpairs := htag.to_crlf fun hmem => h (List.mem_append_left after hmem)
      rw [crlf_append, hpairs.openTag?_append, Option.map_some, spread_append]
  | none =>
      have hcode : ¬ BeginsCode cs := by
        rw [← openTag?_isSome_iff, hplain]
        exact Bool.false_ne_true
      have hpairs := mt beginsCode_of_crlf hcode
      rw [← openTag?_isSome_iff] at hpairs
      simpa using hpairs

/-- The search for a place that a line end does not begin. -/
theorem offsetFrom?_crlf {p : List Char → Bool} (hfeed : ∀ cs, p ('\n' :: cs) = false)
    (hreturn : ∀ cs, p ('\r' :: cs) = false) {cs : List Char}
    (hp : ∀ x, x <:+ cs → p (crlf x) = p x) (n n' : Nat) :
    Option.Rel (SamePlace cs n n') (offsetFrom? p n cs) (offsetFrom? p n' (crlf cs)) := by
  induction cs generalizing n n' with
  | nil =>
      rw [crlf_nil, offsetFrom?, offsetFrom?]
      split
      · exact .some .here
      · exact .none
  | cons c cs ih =>
      have hrest := ih fun x hx => hp x (hx.trans (List.suffix_cons c cs))
      by_cases hc : c = '\n'
      · subst hc
        rw [crlf_feed, offsetFrom?, hfeed, offsetFrom?, hreturn, offsetFrom?, hfeed]
        exact SamePlace.rel_feed (hrest (n + 1) (n' + 2))
      · have hhead := hp (c :: cs) List.suffix_rfl
        rw [crlf_cons hc] at hhead ⊢
        rw [offsetFrom?, offsetFrom?, hhead]
        split
        · exact .some .here
        · exact SamePlace.rel_char hc (hrest (n + 1) (n' + 1))

theorem templateLength_crlf {cs : List Char} (h : '\r' ∉ cs) :
    templateLength (crlf cs) = spread cs (templateLength cs) := by
  have hp : ∀ x, x <:+ cs → (openTag? (crlf x)).isSome = (openTag? x).isSome := by
    intro x hx
    rw [openTag?_crlf fun hmem => h (hx.subset hmem), Option.isSome_map]
  have hoffset : offsetOf? (fun rest => (openTag? rest).isSome) (crlf cs) =
      (offsetOf? (fun rest => (openTag? rest).isSome) cs).map (spread cs) :=
    SamePlace.eq_map_spread (n := 0) rfl
      (offsetFrom?_crlf (fun _ => rfl) (fun _ => rfl) hp 0 0)
  rw [templateLength, hoffset, templateLength]
  cases offsetOf? (fun rest => (openTag? rest).isSome) cs with
  | none => exact (spread_length cs).symm
  | some k => rfl

theorem cutTemplate_crlf {cs : List Char} (h : '\r' ∉ cs) :
    cutTemplate (crlf cs) = ⟨(cutTemplate cs).type?, spread cs (cutTemplate cs).length⟩ := by
  rw [cutTemplate, openTag?_crlf h, templateLength_crlf h, cutTemplate]
  cases openTag? cs <;> rfl

end PhpTokens.Lexer
