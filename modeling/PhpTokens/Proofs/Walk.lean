import PhpTokens.Proofs.Construction

/-!
# Walking from one significant token to the next

A walk searches on from what the last search found, until a search fails. What
it should meet is said without it: the significant indices beyond the place it
begins at, each once and in the order of the direction (`Enumerates`). The
store lists them already, from the front or from the back (`ahead`).

`Walks` is the walk as a relation, so that nothing bounds the number of
searches. A search from inside the sequence either takes the first index of the
enumeration and leaves an enumeration of the rest, or there is none to take and
it fails where it stands; the walk is then an induction over the enumeration.
The bound that `walk` computes with is never reached: a walk meets no more
indices than the store has.

Turning round is a matter of the indices between. A search that goes from `i`
to `j` passes over nothing significant, so on the way back the first candidate
is `i` itself, and if `i` is trivia all candidates lie beyond it.
-/

namespace PhpTokens

namespace Direction

/-- The other way. -/
def opposite : Direction → Direction
  | .backward => .forward
  | .forward => .backward

theorem Beyond.trans {d : Direction} {i j k : Int} (hij : d.Beyond i j) (hjk : d.Beyond j k) :
    d.Beyond i k := by
  cases d <;> simp only [Beyond] at * <;> omega

theorem not_beyond_self (d : Direction) (i : Int) : ¬ d.Beyond i i := by
  cases d <;> simp only [Beyond] <;> omega

theorem opposite_beyond_iff {d : Direction} {i j : Int} :
    d.opposite.Beyond j i ↔ d.Beyond i j := by
  cases d <;> exact Iff.rfl

theorem beyond_or (d : Direction) (i j : Int) : j = i ∨ d.Beyond i j ∨ d.opposite.Beyond i j := by
  cases d <;> simp only [opposite, Beyond] <;> omega

end Direction

namespace Sequence

open Direction

/-- Searching on from an index until a search fails: the indices that are found,
in their order, and the failure. -/
inductive Walks (s : Sequence) (d : Direction) : Int → List Nat → SearchError → Prop where
  | stop {i : Int} {e : SearchError} (h : s.significantIn d i = .error e) : Walks s d i [] e
  | hit {i : Int} {t : Token} {js : List Nat} {e : SearchError} (h : s.significantIn d i = .ok t)
      (rest : Walks s d t.index js e) : Walks s d i (t.index :: js) e

/-- The significant indices beyond `i`, each once and the nearer before the
further. -/
structure Enumerates (s : Sequence) (d : Direction) (i : Int) (js : List Nat) : Prop where
  inOrder : js.Pairwise fun j k : Nat => d.Beyond j k
  mem_iff : ∀ j, j ∈ js ↔ s.IsSignificant j ∧ d.Beyond i j

/-- The stored indices beyond `i`, as a walk meets them. -/
def ahead (s : Sequence) (i : Nat) : Direction → List Nat
  | .backward => (s.significant.toList.filter fun j => j < i).reverse
  | .forward => s.significant.toList.filter fun j => i < j

theorem length_ahead_le (s : Sequence) (i : Nat) (d : Direction) :
    (s.ahead i d).length ≤ s.significant.size := by
  cases d with
  | backward =>
      rw [ahead, List.length_reverse]
      exact List.length_filter_le ..
  | forward => exact List.length_filter_le ..

theorem Enumerates.nearest {s : Sequence} {d : Direction} {i : Int} {j : Nat} {js : List Nat}
    (h : s.Enumerates d i (j :: js)) : s.Nearest d i j := by
  obtain ⟨hsignificant, hbeyond⟩ := (h.mem_iff j).1 List.mem_cons_self
  refine ⟨hsignificant, hbeyond, ?_⟩
  intro k hk hik
  rcases List.mem_cons.1 ((h.mem_iff k).2 ⟨hk, hik⟩) with rfl | hmem
  · exact .inl rfl
  · exact .inr (List.rel_of_pairwise_cons h.inOrder hmem)

theorem Enumerates.tail {s : Sequence} {d : Direction} {i : Int} {j : Nat} {js : List Nat}
    (h : s.Enumerates d i (j :: js)) : s.Enumerates d j js := by
  refine ⟨h.inOrder.of_cons, ?_⟩
  intro k
  constructor
  · intro hk
    exact ⟨((h.mem_iff k).1 (List.mem_cons_of_mem j hk)).1, List.rel_of_pairwise_cons h.inOrder hk⟩
  · intro hk
    have hmem := (h.mem_iff k).2 ⟨hk.1, h.nearest.beyond.trans hk.2⟩
    rcases List.mem_cons.1 hmem with rfl | hrest
    · exact absurd hk.2 (not_beyond_self d k)
    · exact hrest

theorem Walks.walkFrom_eq {s : Sequence} {d : Direction} {i : Int} {js : List Nat}
    {e : SearchError} (h : s.Walks d i js e) {fuel : Nat} (hfuel : js.length < fuel)
    (hits : Array Nat) : s.walkFrom d i fuel hits = (hits ++ js.toArray, e) := by
  induction h generalizing fuel hits with
  | stop herror =>
      obtain ⟨n, rfl⟩ : ∃ n, fuel = n + 1 := ⟨fuel - 1, by omega⟩
      simp only [walkFrom, herror, Array.append_empty]
  | @hit i t js e hok _ ih =>
      obtain ⟨n, rfl⟩ : ∃ n, fuel = n + 1 := ⟨fuel - 1, by omega⟩
      simp only [List.length_cons] at hfuel
      simp only [walkFrom, hok]
      rw [ih (by omega), List.toArray_cons, Array.push_eq_append, Array.append_assoc]

/-- Seen from what a search found, whatever lay on the near side of its start
still does, and so does the start; nothing else is significant there. -/
theorem Nearest.behind_iff {s : Sequence} {d : Direction} {i j k : Nat}
    (hj : s.Nearest d i j) (hk : s.IsSignificant k) :
    d.opposite.Beyond j k ↔ k = i ∨ d.opposite.Beyond i k := by
  constructor
  · intro hback
    rcases d.beyond_or i k with heq | hfurther | hnear
    · exact .inl (Int.ofNat.inj heq)
    · rcases hj.first k hk hfurther with rfl | hpast
      · exact absurd hback (not_beyond_self _ k)
      · exact absurd ((opposite_beyond_iff.1 hback).trans hpast) (not_beyond_self d k)
    · exact .inr hnear
  · intro hcase
    have hstart : d.opposite.Beyond j i := opposite_beyond_iff.2 hj.beyond
    rcases hcase with rfl | hnear
    · exact hstart
    · exact hstart.trans hnear

namespace WellFormed

variable {s : Sequence}

theorem enumerates_ahead (h : s.WellFormed) (d : Direction) (i : Nat) :
    s.Enumerates d i (s.ahead i d) := by
  have hstored : ∀ j, j ∈ s.significant.toList ↔ s.IsSignificant j := by
    intro j
    rw [Array.mem_toList_iff, h.mem_significant_iff]
  cases d with
  | backward =>
      refine ⟨?_, ?_⟩
      · rw [ahead, List.pairwise_reverse]
        exact (h.significant_pairwise.filter _).imp Int.ofNat_lt.2
      · intro j
        simp only [ahead, List.mem_reverse, List.mem_filter, hstored, decide_eq_true_eq, Beyond,
          Int.ofNat_lt]
  | forward =>
      refine ⟨(h.significant_pairwise.filter _).imp Int.ofNat_lt.2, ?_⟩
      intro j
      simp only [ahead, List.mem_filter, hstored, decide_eq_true_eq, Beyond, Int.ofNat_lt]

/-- A search from inside the sequence finds the nearest significant index, or
there is none and it says so. -/
theorem significantIn_cases (h : s.WellFormed) (d : Direction) {i : Nat} (hi : i < s.size) :
    (∃ t, s.significantIn d i = .ok t ∧ s.get? t.index = some t ∧ s.Nearest d i t.index) ∨
      (s.significantIn d i = .error (.noSignificantToken d i) ∧
        ∀ k, s.IsSignificant k → ¬ d.Beyond i k) := by
  have hposition : s.position i = .ok i := by
    rw [position, if_pos (by omega), Int.toNat_natCast]
  simp only [significantIn, hposition]
  cases hnear : s.nearest? i d with
  | none => exact .inr ⟨rfl, h.not_beyond_of_nearest?_eq_none hnear⟩
  | some j =>
      have hnearest := h.nearest_of_nearest? hnear
      obtain ⟨t, ht, -⟩ := hnearest.isSignificant
      have hindex : t.index = j := h.index_eq j t ht
      refine .inl ⟨t, by simp only [Option.bind_some, ht], ?_, ?_⟩
      · rw [hindex]
        exact ht
      · rw [hindex]
        exact hnearest

theorem significantIn_of_nearest (h : s.WellFormed) {d : Direction} {i j : Nat} {t : Token}
    (hi : i < s.size) (hj : s.Nearest d i j) (ht : s.get? j = some t) :
    s.significantIn d i = .ok t := by
  rcases h.significantIn_cases d hi with ⟨u, hok, hu, hnearest⟩ | ⟨-, hnone⟩
  · rw [hnearest.unique hj, ht] at hu
    cases hu
    exact hok
  · exact absurd hj.beyond (hnone j hj.isSignificant)

theorem significantIn_of_not_beyond (h : s.WellFormed) {d : Direction} {i : Nat} (hi : i < s.size)
    (hnone : ∀ k, s.IsSignificant k → ¬ d.Beyond i k) :
    s.significantIn d i = .error (.noSignificantToken d i) := by
  rcases h.significantIn_cases d hi with ⟨t, -, -, hnearest⟩ | ⟨herror, -⟩
  · exact absurd hnearest.beyond (hnone _ hnearest.isSignificant)
  · exact herror

/-- A walk meets what is enumerated, and fails at the last of it. -/
theorem walks_of_enumerates (h : s.WellFormed) {d : Direction} {i : Nat} {js : List Nat}
    (hi : i < s.size) (hjs : s.Enumerates d i js) :
    s.Walks d i js (.noSignificantToken d (js.getLastD i)) := by
  -- The search takes the head of the enumeration, and what is left lies beyond the head.
  induction js generalizing i with
  | nil =>
      refine .stop (h.significantIn_of_not_beyond hi ?_)
      intro k hk hbeyond
      cases (hjs.mem_iff k).2 ⟨hk, hbeyond⟩
  | cons j js ih =>
      obtain ⟨t, ht, -⟩ := hjs.nearest.isSignificant
      have hindex : t.index = j := h.index_eq j t ht
      have hrest := ih hjs.nearest.isSignificant.lt_size hjs.tail
      rw [List.getLastD_cons]
      subst hindex
      exact .hit (h.significantIn_of_nearest hi hjs.nearest ht) hrest

theorem walks_ahead (h : s.WellFormed) (d : Direction) {i : Nat} (hi : i < s.size) :
    s.Walks d i (s.ahead i d) (.noSignificantToken d ((s.ahead i d).getLastD i)) :=
  h.walks_of_enumerates hi (h.enumerates_ahead d i)

/-! ## Turning round -/

theorem retrace_of_isSignificant (h : s.WellFormed) {d : Direction} {i : Nat} {t u : Token}
    (hnearest : s.Nearest d i t.index) (hsignificant : s.IsSignificant i)
    (hu : s.get? i = some u) : s.significantIn d.opposite t.index = .ok u := by
  refine h.significantIn_of_nearest hnearest.isSignificant.lt_size ?_ hu
  refine ⟨hsignificant, opposite_beyond_iff.2 hnearest.beyond, ?_⟩
  intro k hk hbeyond
  exact (hnearest.behind_iff hk).1 hbeyond

/-- From trivia, a search and the search back from what it found come to the
same. -/
theorem retrace_of_trivia (h : s.WellFormed) {d : Direction} {i : Nat} {t : Token}
    (hi : i < s.size) (hnearest : s.Nearest d i t.index) (htrivia : ¬ s.IsSignificant i) :
    (∃ u, s.significantIn d.opposite t.index = .ok u ∧ s.significantIn d.opposite i = .ok u) ∨
      (s.significantIn d.opposite t.index = .error (.noSignificantToken d.opposite t.index) ∧
        s.significantIn d.opposite i = .error (.noSignificantToken d.opposite i)) := by
  have hsame : ∀ k, s.IsSignificant k →
      (d.opposite.Beyond t.index k ↔ d.opposite.Beyond i k) := by
    intro k hk
    rw [hnearest.behind_iff hk]
    constructor
    · intro hcase
      rcases hcase with rfl | hnear
      · exact absurd hk htrivia
      · exact hnear
    · exact .inr
  rcases h.significantIn_cases d.opposite hi with ⟨u, hok, hu, hback⟩ | ⟨herror, hnone⟩
  · refine .inl ⟨u, ?_, hok⟩
    refine h.significantIn_of_nearest hnearest.isSignificant.lt_size ?_ hu
    refine ⟨hback.isSignificant, (hsame _ hback.isSignificant).2 hback.beyond, ?_⟩
    intro k hk hbeyond
    exact hback.first k hk ((hsame k hk).1 hbeyond)
  · refine .inr ⟨?_, herror⟩
    refine h.significantIn_of_not_beyond hnearest.isSignificant.lt_size ?_
    intro k hk hbeyond
    exact hnone k hk ((hsame k hk).1 hbeyond)

end WellFormed

/-- From any index inside a sequence, and in either direction, a walk meets the
significant indices beyond it in order, each once, and fails at the last. A
search and the search back from what it found lead to the start, or, from
trivia, to where the search back from the start leads. -/
theorem walk_enumerates_and_retraces [Limits] {s : Sequence} (hs : s.Constructible) {i : Nat}
    (hi : i < s.size) (d : Direction) :
    (s.Enumerates d i (s.ahead i d) ∧
      s.Walks d i (s.ahead i d) (.noSignificantToken d ((s.ahead i d).getLastD i)) ∧
      s.walk d i = ((s.ahead i d).toArray, .noSignificantToken d ((s.ahead i d).getLastD i))) ∧
    ∀ t, s.significantIn d i = .ok t →
      (s.IsSignificant i →
        ∃ u, s.get? i = some u ∧ s.significantIn d.opposite t.index = .ok u) ∧
      (¬ s.IsSignificant i →
        (∃ u, s.significantIn d.opposite t.index = .ok u ∧
          s.significantIn d.opposite i = .ok u) ∨
        (s.significantIn d.opposite t.index = .error (.noSignificantToken d.opposite t.index) ∧
          s.significantIn d.opposite i = .error (.noSignificantToken d.opposite i))) := by
  have h := hs.wellFormed
  refine ⟨⟨h.enumerates_ahead d i, h.walks_ahead d hi, ?_⟩, ?_⟩
  · have hbound : (s.ahead i d).length < s.significant.size + 1 :=
      Nat.lt_succ_of_le (s.length_ahead_le i d)
    rw [walk, (h.walks_ahead d hi).walkFrom_eq hbound, Array.empty_append]
  · intro t ht
    have hnearest : s.Nearest d i t.index := by
      rcases h.significantIn_cases d hi with ⟨u, hok, -, hnearest⟩ | ⟨herror, -⟩
      · cases ht.symm.trans hok
        exact hnearest
      · cases ht.symm.trans herror
    refine ⟨?_, h.retrace_of_trivia hi hnearest⟩
    intro hsignificant
    obtain ⟨u, hu⟩ := exists_get?_of_lt hi
    exact ⟨u, hu, h.retrace_of_isSignificant hnearest hsignificant hu⟩

/-- From a blank, over a comment, to the end; and from there back. -/
theorem walk_enumerates_and_retraces_over_comment :
    (ofLexemes #[.typed .whitespace " ", .bare "(", .typed .comment "#", .bare ";"]).walk
        .forward 0 = (#[1, 3], .noSignificantToken .forward 3) ∧
      (ofLexemes #[.typed .whitespace " ", .bare "(", .typed .comment "#", .bare ";"]).walk
        .backward 3 = (#[1], .noSignificantToken .backward 1) := by
  have hout := walk_enumerates_and_retraces (i := 0)
    (.ofLexemes #[.typed .whitespace " ", .bare "(", .typed .comment "#", .bare ";"])
    (by decide) .forward
  have hback := walk_enumerates_and_retraces (i := 3)
    (.ofLexemes #[.typed .whitespace " ", .bare "(", .typed .comment "#", .bare ";"])
    (by decide) .backward
  exact ⟨hout.1.2.2.trans (by decide +kernel), hback.1.2.2.trans (by decide +kernel)⟩

end Sequence

end PhpTokens
