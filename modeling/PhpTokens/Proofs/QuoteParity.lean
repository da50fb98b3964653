import Mathlib.Algebra.Group.Nat.Even
import Mathlib.Computability.Language
import Mathlib.Data.List.DropRight
import PhpTokens.Proofs.Delimited
import PhpTokens.Text.Bytes

/-!
# A quoted literal ends by the parity of backslashes

The search for the closing quote goes forward and takes a backslash with the
character behind it. Looking back from a quote says the same: the quote closes
the literal if the backslashes right before it pair off with each other, and the
first quote of this kind is where the literal ends.

The two views meet in `isQuotedRest_iff`. A step forward puts one character that
is no backslash, or a backslash with another character, in front of a text, and
neither changes the parity of the backslashes at its end
(`backslashRun_cons_of_ne`, `even_backslashRun_escape`): a pair is counted in it
as two or not at all.
-/

namespace PhpTokens.Lexer

/-- Number of backslashes at the end of a text. -/
def backslashRun (x : List Char) : Nat := (x.rtakeWhile (· == '\\')).length

/-- A quote stands behind `x` in the text, with an even number of backslashes right
before it. -/
structure IsClosing (q : Char) (cs x : List Char) : Prop where
  head : x ++ [q] <+: cs
  even : Even (backslashRun x)

/-- The first quote of that kind stands behind `x`. -/
structure IsFirstClosing (q : Char) (cs x : List Char) : Prop where
  closing : IsClosing q cs x
  length_le : ∀ y, IsClosing q cs y → x.length ≤ y.length

/-- What a literal has between its quotes, piece by piece: a character that is neither
a backslash nor the quote, or a backslash and any character. -/
def quotedPiece (q : Char) : Language Char :=
  {t | (∃ c, c ≠ '\\' ∧ c ≠ q ∧ t = [c]) ∨ ∃ c, t = ['\\', c]}

/-- Literals with a quote. -/
def quotedLiteral (q : Char) : Language Char := {[q]} * (KStar.kstar (quotedPiece q) * {[q]})

/-! ## Backslashes at the end -/

theorem backslashRun_cons (c : Char) (x : List Char) :
    backslashRun (c :: x) =
      if c = '\\' ∧ backslashRun x = x.length then backslashRun x + 1 else backslashRun x := by
  simp only [backslashRun, List.rtakeWhile, List.length_reverse, List.reverse_cons,
    List.takeWhile_append]
  by_cases hall : (x.reverse.takeWhile (· == '\\')).length = x.length
  · by_cases hc : c = '\\'
    · simp [hall, hc]
    · simp [hall, hc]
  · simp [hall]

theorem backslashRun_le (x : List Char) : backslashRun x ≤ x.length :=
  (List.rtakeWhile_suffix _ x).length_le

theorem backslashRun_cons_of_ne {c : Char} (hc : c ≠ '\\') (x : List Char) :
    backslashRun (c :: x) = backslashRun x := by
  rw [backslashRun_cons, if_neg fun h => hc h.1]

theorem even_backslashRun_escape (c : Char) (x : List Char) :
    Even (backslashRun ('\\' :: c :: x)) ↔ Even (backslashRun x) := by
  have hle := backslashRun_le x
  rw [backslashRun_cons, backslashRun_cons c, List.length_cons, Nat.even_iff, Nat.even_iff]
  by_cases hpair : c = '\\' ∧ backslashRun x = x.length
  · rw [if_pos hpair, if_pos ⟨rfl, by omega⟩]
    omega
  · rw [if_neg hpair, if_neg fun h => by omega]

/-! ## Literals by parity -/

/-- A text that ends with a closing quote, and with the first one. -/
theorem IsQuotedRest.parity {q : Char} (hq : q ≠ '\\') {t : List Char} (h : IsQuotedRest q t) :
    ∃ x, t = x ++ [q] ∧ Even (backslashRun x) ∧
      ∀ y z, x = y ++ q :: z → ¬ Even (backslashRun y) := by
  induction h with
  | close => exact ⟨[], rfl, by decide, fun y z hx => by simp at hx⟩
  | @plain c t hescape hc _ ih =>
      obtain ⟨x, rfl, heven, hfirst⟩ := ih
      refine ⟨c :: x, rfl, by rw [backslashRun_cons_of_ne hescape]; exact heven, ?_⟩
      intro y z hx
      cases y with
      | nil => exact absurd (List.cons.inj hx).1 hc
      | cons d y =>
          obtain ⟨rfl, htail⟩ := List.cons.inj hx
          rw [backslashRun_cons_of_ne hescape]
          exact hfirst y z htail
  | @escaped c t _ ih =>
      obtain ⟨x, rfl, heven, hfirst⟩ := ih
      refine ⟨'\\' :: c :: x, rfl, (even_backslashRun_escape c x).2 heven, ?_⟩
      intro y z hx
      cases y with
      | nil => exact absurd (List.cons.inj hx).1.symm hq
      | cons d y =>
          obtain ⟨rfl, htail⟩ := List.cons.inj hx
          cases y with
          | nil => decide
          | cons e y =>
              obtain ⟨rfl, hrest⟩ := List.cons.inj htail
              rw [even_backslashRun_escape]
              exact hfirst y z hrest

theorem isQuotedRest_of_parity {q : Char} :
    ∀ (x : List Char), Even (backslashRun x) →
      (∀ y z, x = y ++ q :: z → ¬ Even (backslashRun y)) → IsQuotedRest q (x ++ [q])
  | [], _, _ => .close
  | c :: x, heven, hfirst => by
      by_cases hescape : c = '\\'
      · subst hescape
        cases x with
        | nil => exact absurd heven (by decide)
        | cons d x =>
            refine .escaped d (isQuotedRest_of_parity x ((even_backslashRun_escape d x).1 heven) ?_)
            intro y z hx
            rw [← even_backslashRun_escape d]
            exact hfirst ('\\' :: d :: y) z (by rw [hx]; rfl)
      · have hc : c ≠ q := by
          intro hc
          exact hfirst [] x (by rw [hc]; rfl) (by decide)
        rw [backslashRun_cons_of_ne hescape] at heven
        refine .plain hescape hc (isQuotedRest_of_parity x heven ?_)
        intro y z hx
        rw [← backslashRun_cons_of_ne hescape]
        exact hfirst (c :: y) z (by rw [hx]; rfl)

/-- A text is a literal behind its opening quote just if it ends at its first closing
quote. -/
theorem isQuotedRest_iff {q : Char} (hq : q ≠ '\\') {t : List Char} :
    IsQuotedRest q t ↔ ∃ x, t = x ++ [q] ∧ IsFirstClosing q t x := by
  constructor
  · intro h
    obtain ⟨x, rfl, heven, hfirst⟩ := h.parity hq
    refine ⟨x, rfl, ⟨List.prefix_refl _, heven⟩, ?_⟩
    intro y hy
    refine Nat.le_of_not_lt fun hlt => ?_
    have hprefix : y ++ [q] <+: x :=
      List.prefix_of_prefix_length_le hy.head (List.prefix_append x [q])
        (by rw [List.length_append, List.length_singleton]; omega)
    obtain ⟨z, rfl⟩ := hprefix
    exact hfirst y z (by simp) hy.even
  · intro h
    obtain ⟨x, rfl, hclosing, hfirst⟩ := h
    refine isQuotedRest_of_parity x hclosing.even ?_
    intro y z hx heven
    have hle := hfirst y ⟨⟨z ++ [q], by rw [hx]; simp⟩, heven⟩
    rw [hx, List.length_append, List.length_cons] at hle
    omega

/-! ## Literals piece by piece -/

theorem mem_quotedLiteral_iff {q : Char} {t : List Char} :
    t ∈ quotedLiteral q ↔
      ∃ pieces : List (List Char), (∀ p ∈ pieces, p ∈ quotedPiece q) ∧
        t = q :: (pieces.flatten ++ [q]) := by
  rw [quotedLiteral, Language.mem_mul]
  simp only [Language.mem_mul, Language.mem_kstar]
  constructor
  · intro h
    obtain ⟨_, rfl, _, ⟨_, ⟨pieces, rfl, hpieces⟩, _, rfl, rfl⟩, rfl⟩ := h
    exact ⟨pieces, hpieces, rfl⟩
  · intro h
    obtain ⟨pieces, hpieces, rfl⟩ := h
    exact ⟨[q], rfl, _, ⟨_, ⟨pieces, rfl, hpieces⟩, [q], rfl, rfl⟩, rfl⟩

theorem isQuotedRest_of_pieces {q : Char} {pieces : List (List Char)}
    (h : ∀ p ∈ pieces, p ∈ quotedPiece q) : IsQuotedRest q (pieces.flatten ++ [q]) := by
  induction pieces with
  | nil => exact .close
  | cons p pieces ih =>
      obtain ⟨hp, hpieces⟩ := List.forall_mem_cons.1 h
      rcases hp with ⟨c, hescape, hc, rfl⟩ | ⟨c, rfl⟩
      · exact .plain hescape hc (ih hpieces)
      · exact .escaped c (ih hpieces)

theorem IsQuotedRest.exists_pieces {q : Char} {t : List Char} (h : IsQuotedRest q t) :
    ∃ pieces : List (List Char), (∀ p ∈ pieces, p ∈ quotedPiece q) ∧
      t = pieces.flatten ++ [q] := by
  induction h with
  | close => exact ⟨[], by simp, rfl⟩
  | @plain c t hescape hc _ ih =>
      obtain ⟨pieces, hpieces, rfl⟩ := ih
      exact ⟨[c] :: pieces,
        List.forall_mem_cons.2 ⟨.inl ⟨c, hescape, hc, rfl⟩, hpieces⟩, rfl⟩
  | @escaped c t _ ih =>
      obtain ⟨pieces, hpieces, rfl⟩ := ih
      exact ⟨['\\', c] :: pieces, List.forall_mem_cons.2 ⟨.inr ⟨c, rfl⟩, hpieces⟩, rfl⟩

theorem mem_quotedLiteral {q : Char} {t : List Char} :
    t ∈ quotedLiteral q ↔ ∃ u, t = q :: u ∧ IsQuotedRest q u := by
  rw [mem_quotedLiteral_iff]
  constructor
  · intro h
    obtain ⟨pieces, hpieces, rfl⟩ := h
    exact ⟨_, rfl, isQuotedRest_of_pieces hpieces⟩
  · intro h
    obtain ⟨u, rfl, hu⟩ := h
    obtain ⟨pieces, hpieces, rfl⟩ := hu.exists_pieces
    exact ⟨pieces, hpieces, rfl⟩

/-! ## The search -/

theorem quotedLength?_eq_some_iff {q : Char} (hq : q ≠ '\\') {cs : List Char} {n : Nat} :
    quotedLength? (q :: cs) = some n ↔
      ∃ u, u <+: cs ∧ n = u.length + 1 ∧ IsQuotedRest q u := by
  constructor
  · intro h
    obtain ⟨u, rest, rfl, rfl, hu⟩ := quotedFrom?_spec h
    exact ⟨u, List.prefix_append u rest, Nat.add_comm _ _, hu⟩
  · intro h
    obtain ⟨u, ⟨rest, rfl⟩, rfl, hu⟩ := h
    rw [quotedLength?, hu.quotedFrom?_append hq, Nat.add_comm]

theorem IsClosing.of_prefix {q : Char} {u cs x : List Char} (h : IsClosing q u x)
    (hu : u <+: cs) : IsClosing q cs x := ⟨h.head.trans hu, h.even⟩

/-- The first closing quote of a text is that of its head up to there. -/
theorem isFirstClosing_iff {q : Char} {cs x : List Char} :
    IsFirstClosing q cs x ↔ x ++ [q] <+: cs ∧ IsFirstClosing q (x ++ [q]) x := by
  constructor
  · intro h
    refine ⟨h.closing.head, ⟨List.prefix_refl _, h.closing.even⟩, ?_⟩
    intro y hy
    exact h.length_le y (hy.of_prefix h.closing.head)
  · intro h
    obtain ⟨hx, hfirst⟩ := h
    refine ⟨hfirst.closing.of_prefix hx, ?_⟩
    intro y hy
    refine Nat.le_of_not_lt fun hlt => ?_
    have hhead : y ++ [q] <+: x ++ [q] :=
      List.prefix_of_prefix_length_le hy.head hx
        (by rw [List.length_append, List.length_append]; omega)
    have hle := hfirst.length_le y ⟨hhead, hy.even⟩
    omega

theorem exists_isFirstClosing {q : Char} {cs x : List Char} (h : IsClosing q cs x) :
    ∃ y, IsFirstClosing q cs y := by
  induction hn : x.length using Nat.strongRecOn generalizing x with
  | ind n ih =>
      by_cases hfirst : ∀ y, IsClosing q cs y → x.length ≤ y.length
      · exact ⟨x, h, hfirst⟩
      · simp only [not_forall, Nat.not_le] at hfirst
        obtain ⟨y, hy, hlt⟩ := hfirst
        exact ih y.length (by omega) hy rfl

theorem quotedLength?_eq_some_iff_first {q : Char} (hq : q ≠ '\\') {cs : List Char} {n : Nat} :
    quotedLength? (q :: cs) = some n ↔ ∃ x, IsFirstClosing q cs x ∧ n = x.length + 2 := by
  rw [quotedLength?_eq_some_iff hq]
  constructor
  · intro h
    obtain ⟨u, hu, rfl, hquoted⟩ := h
    obtain ⟨x, rfl, hfirst⟩ := (isQuotedRest_iff hq).1 hquoted
    exact ⟨x, isFirstClosing_iff.2 ⟨hu, hfirst⟩, by rw [List.length_append, List.length_singleton]⟩
  · intro h
    obtain ⟨x, hfirst, rfl⟩ := h
    obtain ⟨hhead, hfirst⟩ := isFirstClosing_iff.1 hfirst
    exact ⟨x ++ [q], hhead, by rw [List.length_append, List.length_singleton],
      (isQuotedRest_iff hq).2 ⟨x, rfl, hfirst⟩⟩

theorem quotedLength?_eq_none_iff {q : Char} (hq : q ≠ '\\') {cs : List Char} :
    quotedLength? (q :: cs) = none ↔ ∀ x, ¬ IsClosing q cs x := by
  constructor
  · intro h x hx
    obtain ⟨y, hy⟩ := exists_isFirstClosing hx
    rw [(quotedLength?_eq_some_iff_first hq).2 ⟨y, hy, rfl⟩] at h
    cases h
  · intro h
    refine Option.eq_none_iff_forall_ne_some.2 fun n hn => ?_
    obtain ⟨x, hfirst, -⟩ := (quotedLength?_eq_some_iff_first hq).1 hn
    exact h x hfirst.closing

/-- The measured literal is the only head of the text that is one. -/
theorem quotedLength?_eq_some_iff_unique {q : Char} (hq : q ≠ '\\') {cs : List Char} {n : Nat} :
    quotedLength? (q :: cs) = some n ↔
      n ≤ (q :: cs).length ∧ (q :: cs).take n ∈ quotedLiteral q ∧
        ∀ t, t <+: q :: cs → t ∈ quotedLiteral q → t = (q :: cs).take n := by
  constructor
  · intro h
    obtain ⟨u, hu, rfl, hquoted⟩ := (quotedLength?_eq_some_iff hq).1 h
    have htake : (q :: cs).take (u.length + 1) = q :: u := by
      rw [List.take_succ_cons, ← List.prefix_iff_eq_take.1 hu]
    rw [htake]
    refine ⟨Nat.succ_le_succ hu.length_le, mem_quotedLiteral.2 ⟨u, rfl, hquoted⟩, ?_⟩
    intro t ht hliteral
    obtain ⟨v, rfl, hv⟩ := mem_quotedLiteral.1 hliteral
    have hvcs := (List.cons_prefix_cons.1 ht).2
    have hlength := h.symm.trans ((quotedLength?_eq_some_iff hq).2 ⟨v, hvcs, rfl, hv⟩)
    have heq : v.length = u.length := by
      have := Option.some.inj hlength
      omega
    rw [(List.prefix_of_prefix_length_le hvcs hu (Nat.le_of_eq heq)).eq_of_length heq]
  · intro h
    obtain ⟨hle, hliteral, -⟩ := h
    obtain ⟨u, htake, hu⟩ := mem_quotedLiteral.1 hliteral
    have hlength := congrArg List.length htake
    rw [List.length_take_of_le hle, List.length_cons] at hlength
    have hhead : q :: u <+: q :: cs := htake ▸ List.take_prefix n (q :: cs)
    exact (quotedLength?_eq_some_iff hq).2 ⟨u, (List.cons_prefix_cons.1 hhead).2, hlength, hu⟩

/-- A literal ends with the first quote that has an even number of backslashes right
before it, in characters as in bytes, and has no end if there is none. Up to its end
it is the only head of the text of the form of a literal. -/
theorem quotedLength?_parity {q : Char} (hq : q = '\'' ∨ q = '"') (cs : List Char) :
    (∀ n, quotedLength? (q :: cs) = some n ↔
        ∃ x, IsFirstClosing q cs x ∧ n = x.length + 2 ∧
          Text.byteLength ((q :: cs).take n) = Text.byteLength x + 2) ∧
      (quotedLength? (q :: cs) = none ↔ ∀ x, ¬ IsClosing q cs x) ∧
      (∀ n, quotedLength? (q :: cs) = some n ↔
        n ≤ (q :: cs).length ∧ (q :: cs).take n ∈ quotedLiteral q ∧
          ∀ t, t <+: q :: cs → t ∈ quotedLiteral q → t = (q :: cs).take n) := by
  have hescape : q ≠ '\\' := by
    rcases hq with rfl | rfl <;> decide
  have hsize : q.utf8Size = 1 := by
    rcases hq with rfl | rfl <;> rfl
  refine ⟨?_, quotedLength?_eq_none_iff hescape, fun n => quotedLength?_eq_some_iff_unique hescape⟩
  intro n
  rw [quotedLength?_eq_some_iff_first hescape]
  refine exists_congr fun x => and_congr_right fun hfirst => ?_
  refine (and_iff_left_of_imp ?_).symm
  rintro rfl
  have hhead : q :: (x ++ [q]) <+: q :: cs := List.cons_prefix_cons.2 ⟨rfl, hfirst.closing.head⟩
  have htake : (q :: cs).take (x.length + 2) = q :: (x ++ [q]) := by
    have h := List.prefix_iff_eq_take.1 hhead
    rw [List.length_cons, List.length_append, List.length_singleton] at h
    exact h.symm
  rw [htake, Text.byteLength_cons, Text.byteLength_append, Text.byteLength_cons,
    Text.byteLength_nil, hsize]
  omega

/-- A quote that is escaped, and right behind it the closing one, behind two
backslashes. -/
theorem quotedLength?_parity_escaped :
    quotedLength? "'\\'\\\\''".toList = some 6 ∧
      ∃ x, IsFirstClosing '\'' "\\'\\\\''".toList x ∧ 6 = x.length + 2 ∧
        Text.byteLength ("'\\'\\\\''".toList.take 6) = Text.byteLength x + 2 := by
  have hlength : quotedLength? "'\\'\\\\''".toList = some 6 := by decide
  exact ⟨hlength, ((quotedLength?_parity (.inl rfl) "\\'\\\\''".toList).1 6).1 hlength⟩

end PhpTokens.Lexer
