import PhpTokens.Proofs.Representation

/-!
# Searching the store finds what walking the tokens finds

A search for the nearest significant token never looks at the tokens between:
it halves the stored indices. What it is meant to answer is said by a walk,
`linearSearch`: refuse an index outside the sequence, otherwise step away from
it, one token at a time, and take the first that is no trivia.

The two meet in the middle. `Nearest` says which index is the right answer,
without saying how to find it; there is at most one. The halving finds it
because the store is increasing and exact, the walk because it passes over
nothing, and where one comes back empty so does the other.
-/

namespace PhpTokens

namespace Search

/-- Up to `k` every element satisfies `p`, from `k` on none does. -/
structure IsPartitionPoint (xs : Array Nat) (p : Nat → Bool) (k : Nat) : Prop where
  le_size : k ≤ xs.size
  below : ∀ i x, i < k → xs[i]? = some x → p x = true
  above : ∀ i x, k ≤ i → xs[i]? = some x → p x = false

/-- What halving needs of an array: an element before one that satisfies `p`
satisfies it too. -/
def IsPartitioned (xs : Array Nat) (p : Nat → Bool) : Prop :=
  ∀ (i j x y : Nat), i ≤ j → xs[i]? = some x → xs[j]? = some y → p y = true → p x = true

theorem isPartitionPoint_partitionBetween {xs : Array Nat} {p : Nat → Bool}
    (hxs : IsPartitioned xs p) {lo hi : Nat} (hlohi : lo ≤ hi) (hsize : hi ≤ xs.size)
    (hbelow : ∀ i x, i < lo → xs[i]? = some x → p x = true)
    (habove : ∀ i x, hi ≤ i → xs[i]? = some x → p x = false) :
    IsPartitionPoint xs p (partitionBetween xs p lo hi) := by
  fun_induction partitionBetween xs p lo hi with
  | case1 lo hi hlt mid x hx hp ih =>
      refine ih (by omega) hsize ?_ habove
      intro i y hi hy
      exact hxs i mid y x (by omega) hy hx hp
  | case2 lo hi hlt mid x hx hp ih =>
      refine ih (by omega) (by omega) hbelow ?_
      intro i y hi hy
      cases hpy : p y with
      | false => rfl
      | true => exact absurd (hxs mid i x y hi hx hy hpy) hp
  | case3 lo hi hlt mid hx ih =>
      -- The middle lies inside the array.
      have hmid : xs.size ≤ mid := Array.getElem?_eq_none_iff.1 hx
      exact absurd hmid (by omega)
  | case4 lo hi hlt =>
      refine ⟨by omega, hbelow, ?_⟩
      intro i x hi hx
      exact habove i x (by omega) hx

/-- Halving finds the partition point of a partitioned array. -/
theorem isPartitionPoint_partitionPoint {xs : Array Nat} {p : Nat → Bool}
    (hxs : IsPartitioned xs p) : IsPartitionPoint xs p (partitionPoint xs p) := by
  refine isPartitionPoint_partitionBetween hxs (Nat.zero_le _) (Nat.le_refl _) ?_ ?_
  · intro i x hi _
    exact absurd hi (Nat.not_lt_zero i)
  · intro i x hi hx
    have hlt : i < xs.size := (Array.getElem?_eq_some_iff.1 hx).1
    exact absurd hlt (by omega)

end Search

/-- `j` lies on the side of `i` that the direction points to. -/
def Direction.Beyond (i j : Int) : Direction → Prop
  | .backward => j < i
  | .forward => i < j

theorem Direction.beyond_sub_step_iff {d : Direction} {i j : Int} :
    d.Beyond (i - d.step) j ↔ j = i ∨ d.Beyond i j := by
  cases d <;> simp only [Beyond, step] <;> omega

namespace Sequence

open Search Direction

/-- The first token that is no trivia, from position `i` on and one step at a
time. -/
def walkTo? (s : Sequence) (d : Direction) (i : Int) : Option Token :=
  if _h : 0 ≤ i ∧ i < s.size then
    match s.get? i.toNat with
    | some t => if s.trivia.contains t.type then s.walkTo? d (i + d.step) else some t
    | none => none
  else none
termination_by match d with
  | .backward => (i + 1).toNat
  | .forward => (s.size - i).toNat
decreasing_by cases d <;> simp only [Direction.step] <;> omega

/-- The answer as it is specified: an index outside is refused, otherwise the
walk begins next to it. -/
def linearSearch (s : Sequence) (d : Direction) (i : Int) : Except SearchError Token :=
  if i < 0 ∨ s.size ≤ i then .error (.indexOutOfBounds s.size i)
  else
    match s.walkTo? d (i + d.step) with
    | some t => .ok t
    | none => .error (.noSignificantToken d i)

/-- The significant index beyond `i` before every other one. -/
structure Nearest (s : Sequence) (d : Direction) (i : Int) (j : Nat) : Prop where
  isSignificant : s.IsSignificant j
  beyond : d.Beyond i j
  first : ∀ k, s.IsSignificant k → d.Beyond i k → k = j ∨ d.Beyond j k

theorem Nearest.unique {s : Sequence} {d : Direction} {i : Int} {j k : Nat}
    (hj : s.Nearest d i j) (hk : s.Nearest d i k) : j = k := by
  rcases hj.first k hk.isSignificant hk.beyond with h | h
  · exact h.symm
  · rcases hk.first j hj.isSignificant hj.beyond with h' | h'
    · exact h'
    · cases d <;> simp only [Beyond] at h h' <;> omega

theorem IsSignificant.lt_size {s : Sequence} {i : Nat} (h : s.IsSignificant i) : i < s.size := by
  obtain ⟨t, ht, -⟩ := h
  exact (Array.getElem?_eq_some_iff.1 ht).1

theorem not_isSignificant_of_contains {s : Sequence} {i : Nat} {t : Token}
    (ht : s.get? i = some t) (htrivia : s.trivia.contains t.type = true) :
    ¬ s.IsSignificant i := by
  intro hsignificant
  obtain ⟨u, hu, hsig⟩ := hsignificant
  cases hu.symm.trans ht
  exact absurd (htrivia.symm.trans hsig) (by simp)

/-! ## The walk -/

theorem walkTo?_some {s : Sequence} {d : Direction} {i : Int} {t : Token}
    (h : s.walkTo? d i = some t) : ∃ j, s.get? j = some t ∧ s.Nearest d (i - d.step) j := by
  fun_induction walkTo? s d i with
  | case1 i hi t' ht' htrivia ih =>
      obtain ⟨j, hj, hnear⟩ := ih h
      rw [Int.add_sub_cancel] at hnear
      refine ⟨j, hj, hnear.isSignificant, beyond_sub_step_iff.2 (.inr hnear.beyond), ?_⟩
      intro k hk hbeyond
      rcases beyond_sub_step_iff.1 hbeyond with heq | hfurther
      · -- The token that the walk passes over is no answer.
        subst heq
        exact absurd hk (not_isSignificant_of_contains ht' htrivia)
      · exact hnear.first k hk hfurther
  | case2 i hi t' ht' htrivia =>
      cases h
      have hnat : (i.toNat : Int) = i := Int.toNat_of_nonneg hi.1
      refine ⟨i.toNat, ht', ⟨t, ht', eq_false_of_ne_true htrivia⟩,
        beyond_sub_step_iff.2 (.inl hnat), ?_⟩
      intro k _ hbeyond
      rw [hnat]
      rcases beyond_sub_step_iff.1 hbeyond with heq | hfurther
      · exact .inl (by omega)
      · exact .inr hfurther
  | case3 => cases h
  | case4 => cases h

theorem walkTo?_none {s : Sequence} {d : Direction} {i : Int}
    (hi : 0 ≤ i - d.step ∧ i - d.step < s.size) (h : s.walkTo? d i = none) :
    ∀ k, s.IsSignificant k → ¬ d.Beyond (i - d.step) k := by
  fun_induction walkTo? s d i with
  | case1 i hin t ht htrivia ih =>
      intro k hk hbeyond
      rw [Int.add_sub_cancel] at ih
      rcases beyond_sub_step_iff.1 hbeyond with heq | hfurther
      · subst heq
        exact not_isSignificant_of_contains ht htrivia hk
      · exact ih hin h k hk hfurther
  | case2 => cases h
  | case3 i hin hget =>
      have hsize : s.size ≤ i.toNat := Array.getElem?_eq_none_iff.1 hget
      exact absurd hin (by omega)
  | case4 i hout =>
      intro k hk hbeyond
      have := hk.lt_size
      cases d <;> simp only [Beyond, step] at hi hbeyond <;> omega

/-- The walk reads no token but those it comes to. -/
theorem walkTo?_congr {s s' : Sequence} {d : Direction} {i : Int}
    (htrivia : s'.trivia = s.trivia) (hsize : s'.size = s.size)
    (hget : ∀ j : Nat, d.Beyond (i - d.step) j → s'.get? j = s.get? j) :
    s'.walkTo? d i = s.walkTo? d i := by
  fun_induction walkTo? s d i with
  | case1 i hin t ht hcontains ih =>
      have hhere := hget i.toNat (beyond_sub_step_iff.2 (.inl (Int.toNat_of_nonneg hin.1)))
      rw [walkTo?, dif_pos (by rw [hsize]; exact hin), hhere, ht]
      simp only [htrivia, if_pos hcontains]
      rw [Int.add_sub_cancel] at ih
      refine ih ?_
      intro j hj
      exact hget j (beyond_sub_step_iff.2 (.inr hj))
  | case2 i hin t ht hcontains =>
      have hhere := hget i.toNat (beyond_sub_step_iff.2 (.inl (Int.toNat_of_nonneg hin.1)))
      rw [walkTo?, dif_pos (by rw [hsize]; exact hin), hhere, ht]
      simp only [htrivia, if_neg hcontains]
  | case3 i hin hnone =>
      have hhere := hget i.toNat (beyond_sub_step_iff.2 (.inl (Int.toNat_of_nonneg hin.1)))
      rw [walkTo?, dif_pos (by rw [hsize]; exact hin), hhere, hnone]
  | case4 i hout => rw [walkTo?, dif_neg (by rw [hsize]; exact hout)]

/-! ## The halving -/

namespace WellFormed

variable {s : Sequence}

theorem significant_lt (h : s.WellFormed) {i j x y : Nat} (hij : i < j)
    (hx : s.significant[i]? = some x) (hy : s.significant[j]? = some y) : x < y := by
  obtain ⟨hi, rfl⟩ := Array.getElem?_eq_some_iff.1 hx
  obtain ⟨hj, rfl⟩ := Array.getElem?_eq_some_iff.1 hy
  exact List.pairwise_iff_getElem.1 h.significant_pairwise i j hi hj hij

theorem isSignificant_iff (h : s.WellFormed) {k : Nat} :
    s.IsSignificant k ↔ ∃ n : Nat, s.significant[n]? = some k := by
  rw [← h.mem_significant_iff, Array.mem_iff_getElem?]

/-- A condition that holds of smaller numbers first splits the store in two. -/
theorem isPartitioned (h : s.WellFormed) {p : Nat → Bool}
    (hp : ∀ x y, x ≤ y → p y = true → p x = true) : IsPartitioned s.significant p := by
  intro i j x y hij hx hy hpy
  refine hp x y ?_ hpy
  rcases Nat.eq_or_lt_of_le hij with rfl | hlt
  · cases hx.symm.trans hy
    exact Nat.le_refl x
  · exact Nat.le_of_lt (h.significant_lt hlt hx hy)

theorem isPartitionPoint_lt (h : s.WellFormed) (start : Nat) :
    IsPartitionPoint s.significant (· < start) (partitionPoint s.significant (· < start)) := by
  refine isPartitionPoint_partitionPoint (h.isPartitioned ?_)
  intro x y hxy hy
  rw [decide_eq_true_eq] at hy ⊢
  omega

theorem isPartitionPoint_le (h : s.WellFormed) (start : Nat) :
    IsPartitionPoint s.significant (· ≤ start) (partitionPoint s.significant (· ≤ start)) := by
  refine isPartitionPoint_partitionPoint (h.isPartitioned ?_)
  intro x y hxy hy
  rw [decide_eq_true_eq] at hy ⊢
  omega

theorem nearest_of_nearest? (h : s.WellFormed) {d : Direction} {start j : Nat}
    (hj : s.nearest? start d = some j) : s.Nearest d start j := by
  cases d with
  | backward =>
      have hpoint := h.isPartitionPoint_lt start
      simp only [nearest?] at hj
      split at hj
      · cases hj
      · next k hk =>
          rw [hk] at hpoint
          have hlt : j < start := of_decide_eq_true (hpoint.below k j (by omega) hj)
          refine ⟨h.isSignificant_iff.2 ⟨k, hj⟩, by simp only [Beyond]; omega, ?_⟩
          intro m hm hbeyond
          obtain ⟨n, hn⟩ := h.isSignificant_iff.1 hm
          have hmlt : m < start := by simp only [Beyond] at hbeyond; omega
          -- Whatever lies before the start is stored at or before `k`.
          rcases Nat.lt_trichotomy n k with hnk | rfl | hnk
          · have := h.significant_lt hnk hn hj
            exact .inr (by simp only [Beyond]; omega)
          · cases hn.symm.trans hj
            exact .inl rfl
          · have := of_decide_eq_false (hpoint.above n m (by omega) hn)
            exact absurd hmlt this
  | forward =>
      have hpoint := h.isPartitionPoint_le start
      simp only [nearest?] at hj
      have hlt := of_decide_eq_false (hpoint.above _ j (Nat.le_refl _) hj)
      refine ⟨h.isSignificant_iff.2 ⟨_, hj⟩, by simp only [Beyond]; omega, ?_⟩
      intro m hm hbeyond
      obtain ⟨n, hn⟩ := h.isSignificant_iff.1 hm
      have hmlt : start < m := by simp only [Beyond] at hbeyond; omega
      rcases Nat.lt_trichotomy n (partitionPoint s.significant (· ≤ start)) with hnk | rfl | hnk
      · have := of_decide_eq_true (hpoint.below n m hnk hn)
        exact absurd this (by omega)
      · cases hn.symm.trans hj
        exact .inl rfl
      · have := h.significant_lt hnk hj hn
        exact .inr (by simp only [Beyond]; omega)

theorem not_beyond_of_nearest?_eq_none (h : s.WellFormed) {d : Direction} {start : Nat}
    (hnone : s.nearest? start d = none) : ∀ k, s.IsSignificant k → ¬ d.Beyond start k := by
  intro m hm hbeyond
  obtain ⟨n, hn⟩ := h.isSignificant_iff.1 hm
  have hlt : n < s.significant.size := (Array.getElem?_eq_some_iff.1 hn).1
  cases d with
  | backward =>
      have hpoint := h.isPartitionPoint_lt start
      simp only [nearest?] at hnone
      split at hnone
      · next hk =>
          rw [hk] at hpoint
          have := of_decide_eq_false (hpoint.above n m (Nat.zero_le n) hn)
          simp only [Beyond] at hbeyond
          omega
      · next k hk =>
          have hsize := hpoint.le_size
          have := Array.getElem?_eq_none_iff.1 hnone
          omega
  | forward =>
      have hpoint := h.isPartitionPoint_le start
      simp only [nearest?] at hnone
      have hsize := Array.getElem?_eq_none_iff.1 hnone
      have := of_decide_eq_true (hpoint.below n m (by omega) hn)
      simp only [Beyond] at hbeyond
      omega

end WellFormed

/-! ## The two agree -/

/-- Halving the store and walking the tokens give the same answer from an index
inside the sequence. -/
theorem WellFormed.nearest?_bind_get? {s : Sequence} (h : s.WellFormed) (d : Direction)
    {start : Nat} (hstart : start < s.size) :
    (s.nearest? start d).bind s.get? = s.walkTo? d (start + d.step) := by
  have hback : (start : Int) + d.step - d.step = start := by omega
  cases hwalk : s.walkTo? d (start + d.step) with
  | none =>
      have hfree := walkTo?_none (by rw [hback]; omega) hwalk
      rw [hback] at hfree
      cases hnear : s.nearest? start d with
      | none => rfl
      | some j =>
          have hj := h.nearest_of_nearest? hnear
          exact absurd hj.beyond (hfree j hj.isSignificant)
  | some t =>
      obtain ⟨j, hj, hnearest⟩ := walkTo?_some hwalk
      rw [hback] at hnearest
      cases hnear : s.nearest? start d with
      | none =>
          exact absurd hnearest.beyond
            (h.not_beyond_of_nearest?_eq_none hnear j hnearest.isSignificant)
      | some k =>
          rw [(h.nearest_of_nearest? hnear).unique hnearest]
          exact hj

theorem WellFormed.significantIn_eq_linearSearch {s : Sequence} (h : s.WellFormed)
    (d : Direction) (i : Int) : s.significantIn d i = s.linearSearch d i := by
  simp only [significantIn, linearSearch, position]
  by_cases hi : 0 ≤ i ∧ i < s.size
  · rw [if_pos hi, if_neg (by omega)]
    obtain ⟨start, rfl⟩ := Int.eq_ofNat_of_zero_le hi.1
    have hagree : (s.nearest? start d).bind s.get? = s.walkTo? d (start + d.step) :=
      h.nearest?_bind_get? d (by omega)
    cases hwalk : s.walkTo? d (start + d.step) with
    | none => simp only [Int.toNat_natCast, hagree, hwalk]
    | some t => simp only [Int.toNat_natCast, hagree, hwalk]
  · rw [if_neg hi, if_pos (by omega)]

/-- The indexed search is the linear search, for every sequence that can be
made, in either direction and from any index. The token at the index has no
say in the answer: a sequence that differs nowhere else gives the same one. -/
theorem significantIn_refines_linearSearch [Limits] {s : Sequence} (hs : s.Constructible)
    (d : Direction) (i : Int) :
    s.significantIn d i = s.linearSearch d i ∧
      ∀ s' : Sequence, s'.Constructible → s'.trivia = s.trivia → s'.size = s.size →
        (∀ j : Nat, (j : Int) ≠ i → s'.get? j = s.get? j) →
        s'.significantIn d i = s.significantIn d i := by
  refine ⟨hs.wellFormed.significantIn_eq_linearSearch d i, ?_⟩
  intro s' hs' htrivia hsize hget
  rw [hs.wellFormed.significantIn_eq_linearSearch, hs'.wellFormed.significantIn_eq_linearSearch]
  have hwalk : s'.walkTo? d (i + d.step) = s.walkTo? d (i + d.step) := by
    refine walkTo?_congr htrivia hsize ?_
    intro j hj
    refine hget j ?_
    cases d <;> simp only [Beyond, step] at hj <;> omega
  rw [linearSearch, linearSearch, hsize, hwalk]

/-- Across a comment, and whichever token the search begins at. -/
theorem significantIn_refines_linearSearch_across_comment :
    (ofLexemes #[.bare "(", .typed .comment "#", .bare ";"]).significantIn .forward 0 =
        .ok ⟨2, .identifier, ";"⟩ ∧
      (ofLexemes #[.typed .comment "#", .typed .comment "#", .bare ";"]).significantIn .forward 0 =
        .ok ⟨2, .identifier, ";"⟩ := by
  have hrefines := significantIn_refines_linearSearch
    (.ofLexemes #[.bare "(", .typed .comment "#", .bare ";"]) .forward 0
  have hlast : walkTo? (ofLexemes #[.bare "(", .typed .comment "#", .bare ";"]) .forward 2 =
      some ⟨2, .identifier, ";"⟩ := by
    rw [walkTo?]
    rfl
  have hwalk : walkTo? (ofLexemes #[.bare "(", .typed .comment "#", .bare ";"]) .forward
      (0 + step .forward) = some ⟨2, .identifier, ";"⟩ := by
    rw [walkTo?]
    exact hlast
  have hanswer : linearSearch (ofLexemes #[.bare "(", .typed .comment "#", .bare ";"]) .forward 0 =
      .ok ⟨2, .identifier, ";"⟩ := by
    rw [linearSearch, if_neg (by decide), hwalk]
  refine ⟨hrefines.1.trans hanswer, ?_⟩
  rw [hrefines.2 (ofLexemes #[.typed .comment "#", .typed .comment "#", .bare ";"]) (.ofLexemes _)
    rfl rfl ?_]
  · exact hrefines.1.trans hanswer
  · intro j hj
    match j with
    | 0 => exact absurd rfl hj
    | j + 1 =>
        rw [ofLexemes, ofLexemes, assemble_get?, assemble_get?]
        simp

end Sequence

end PhpTokens
