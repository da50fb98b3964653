import Mathlib.Data.List.Basic
import Mathlib.Data.List.Induction
import PhpTokens.Proofs.Walk

/-!
# More trivia, fewer significant tokens

A sequence may be looked at under one trivia set and then under a larger one.
Every token that is significant under the larger set is significant under the
smaller one, so a search under the larger set looks among fewer candidates, and
what it finds is never nearer (`WellFormed.nearer_of_larger`). Both stores are
exact, and `Nearest` says of either which index a search must find, so nothing
has to be said about how the two stores are searched.

A trivia set is a list, but only its members count. Two sets with the same
members are each within the other, and then they have one and the same store.
The list itself matters to those who read it back: made from any list, it has
the distinct members in the order in which they occur first (`ListsFirsts`), and
a list like that is kept as it is.
-/

namespace PhpTokens

namespace TriviaSet

/-- The types are those of `xs`, each once, in the order in which they occur first. -/
structure ListsFirsts (types xs : List TokenType) : Prop where
  mem_iff : ∀ type, type ∈ types ↔ type ∈ xs
  inOrder : types.Pairwise fun a b => xs.idxOf a < xs.idxOf b

theorem ListsFirsts.nodup {types xs : List TokenType} (h : ListsFirsts types xs) : types.Nodup := by
  refine h.inOrder.imp ?_
  intro a b hlt heq
  rw [heq] at hlt
  exact Nat.lt_irrefl _ hlt

theorem contains_iff {s : TriviaSet} {type : TokenType} :
    s.contains type = true ↔ type ∈ s.types := by
  rw [contains, List.contains_iff_mem]

theorem ofList_concat (xs : List TokenType) (x : TokenType) :
    ofList (xs ++ [x]) = (ofList xs).insert x := by
  rw [ofList, List.foldl_append]
  rfl

theorem ListsFirsts.concat {types xs : List TokenType} (h : ListsFirsts types xs) (x : TokenType) :
    ListsFirsts ((⟨types⟩ : TriviaSet).insert x).types (xs ++ [x]) := by
  -- Members of `xs` keep their place, whatever is put behind.
  have hplace : ∀ a ∈ types, (xs ++ [x]).idxOf a = xs.idxOf a :=
    fun a ha => List.idxOf_append_of_mem ((h.mem_iff a).1 ha)
  have hkept : types.Pairwise fun a b => (xs ++ [x]).idxOf a < (xs ++ [x]).idxOf b := by
    refine h.inOrder.imp_of_mem ?_
    intro a b ha hb hlt
    rw [hplace a ha, hplace b hb]
    exact hlt
  unfold insert
  split
  · next hcontains =>
      have hx : x ∈ xs := (h.mem_iff x).1 (contains_iff.1 hcontains)
      refine ⟨?_, hkept⟩
      intro type
      rw [h.mem_iff, List.mem_append, List.mem_singleton]
      refine ⟨.inl, ?_⟩
      rintro (hmem | rfl)
      · exact hmem
      · exact hx
  · next hcontains =>
      have hx : x ∉ xs := fun hmem => hcontains (contains_iff.2 ((h.mem_iff x).2 hmem))
      refine ⟨?_, ?_⟩
      · intro type
        rw [List.mem_append, List.mem_append, h.mem_iff]
      · refine List.pairwise_append.2 ⟨hkept, List.pairwise_singleton _ _, ?_⟩
        intro a ha b hb
        obtain rfl := List.mem_singleton.1 hb
        rw [hplace a ha, List.idxOf_append_of_notMem hx]
        exact Nat.lt_add_right _ (List.idxOf_lt_length_iff.2 ((h.mem_iff a).1 ha))

theorem listsFirsts_ofList (xs : List TokenType) : ListsFirsts (ofList xs).types xs := by
  induction xs using List.reverseRecOn with
  | nil => exact ⟨fun type => Iff.rfl, .nil⟩
  | append_singleton xs x ih =>
      rw [ofList_concat]
      exact ih.concat x

/-- A list without duplicates is kept as it is. -/
theorem ofList_of_nodup {types : List TokenType} (h : types.Nodup) : ofList types = ⟨types⟩ := by
  induction types using List.reverseRecOn with
  | nil => rfl
  | append_singleton types x ih =>
      obtain ⟨hnodup, -, hnew⟩ := List.nodup_append.1 h
      have hx : (⟨types⟩ : TriviaSet).contains x ≠ true := by
        intro hcontains
        exact hnew x (contains_iff.1 hcontains) x (List.mem_singleton_self x) rfl
      rw [ofList_concat, ih hnodup, insert, if_neg hx]

theorem ofList_types (xs : List TokenType) : ofList (ofList xs).types = ofList xs :=
  ofList_of_nodup (listsFirsts_ofList xs).nodup

theorem isTrivia_iff {s : TriviaSet} {t : Token} : s.isTrivia t = true ↔ t.type ∈ s.types :=
  contains_iff

end TriviaSet

namespace Sequence

open Direction TriviaSet

/-- The tokens that are no trivia, in their order. -/
def significantTokens (s : Sequence) : List Token :=
  s.tokens.toList.filter fun t => !s.trivia.isTrivia t

theorem WellFormed.significant_toList {s : Sequence} (h : s.WellFormed) :
    s.significant.toList = s.significantTokens.map Token.index := by
  rw [h.significant_eq, significantIndices, Array.toList_map, Array.toList_filter]
  rfl

theorem significantIn_congr {s s' : Sequence} (htokens : s'.tokens = s.tokens)
    (hsignificant : s'.significant = s.significant) (d : Direction) (i : Int) :
    s'.significantIn d i = s.significantIn d i := by
  obtain ⟨tokens, significant, trivia⟩ := s
  obtain ⟨tokens', significant', trivia'⟩ := s'
  subst htokens hsignificant
  cases d <;> rfl

theorem significantIn_withTrivia_of_outside (s : Sequence) (trivia : TriviaSet) (d : Direction)
    {i : Int} (hi : ¬ (0 ≤ i ∧ i < s.size)) :
    (s.withTrivia trivia).significantIn d i = .error (.indexOutOfBounds s.size i) := by
  have hposition : (s.withTrivia trivia).position i = .error (.indexOutOfBounds s.size i) :=
    if_neg hi
  rw [significantIn, hposition]

section Larger

variable {A B : TriviaSet} (hAB : ∀ type ∈ A.types, type ∈ B.types)

include hAB

theorem isTrivia_eq_false_of_larger {t : Token} (h : B.isTrivia t = false) :
    A.isTrivia t = false := by
  refine eq_false_of_ne_true fun htrivia => ?_
  have hB : B.isTrivia t = true := isTrivia_iff.2 (hAB _ (isTrivia_iff.1 htrivia))
  exact absurd (hB.symm.trans h) (by simp)

theorem significantTokens_sublist (s : Sequence) :
    (s.withTrivia B).significantTokens.Sublist (s.withTrivia A).significantTokens := by
  refine List.monotone_filter_right s.tokens.toList ?_
  intro t ht
  rw [Bool.not_eq_true'] at ht ⊢
  exact isTrivia_eq_false_of_larger hAB ht

theorem IsSignificant.of_larger {s : Sequence} {k : Nat}
    (h : (s.withTrivia B).IsSignificant k) : (s.withTrivia A).IsSignificant k := by
  obtain ⟨t, ht, hsignificant⟩ := h
  exact ⟨t, ht, isTrivia_eq_false_of_larger hAB hsignificant⟩

namespace WellFormed

variable {s : Sequence}

/-- What a search finds under the larger set is a candidate under the smaller one, so the
search there finds it or a nearer one. -/
theorem nearer_of_larger (h : s.WellFormed) {d : Direction} {i : Int} {t : Token}
    (ht : (s.withTrivia B).significantIn d i = .ok t) :
    ∃ u, (s.withTrivia A).significantIn d i = .ok u ∧ d.Beyond i u.index ∧
      (t.index = u.index ∨ d.Beyond u.index t.index) := by
  by_cases hi : 0 ≤ i ∧ i < s.size
  · obtain ⟨start, rfl⟩ := Int.eq_ofNat_of_zero_le hi.1
    have hstart : start < s.size := by omega
    have hfound : (s.withTrivia B).Nearest d start t.index := by
      rcases (h.withTrivia B).significantIn_cases d hstart with ⟨v, hv, -, hv'⟩ | ⟨herror, -⟩
      · cases ht.symm.trans hv
        exact hv'
      · cases ht.symm.trans herror
    have hcandidate := hfound.isSignificant.of_larger hAB
    rcases (h.withTrivia A).significantIn_cases d hstart with ⟨u, hu, -, hu'⟩ | ⟨-, hnone⟩
    · exact ⟨u, hu, hu'.beyond, hu'.first _ hcandidate hfound.beyond⟩
    · exact absurd hfound.beyond (hnone _ hcandidate)
  · rw [significantIn_withTrivia_of_outside s B d hi] at ht
    cases ht

theorem error_of_larger (h : s.WellFormed) {d : Direction} {i : Int} {e : SearchError}
    (he : (s.withTrivia A).significantIn d i = .error e) :
    (s.withTrivia B).significantIn d i = .error e := by
  by_cases hi : 0 ≤ i ∧ i < s.size
  · obtain ⟨start, rfl⟩ := Int.eq_ofNat_of_zero_le hi.1
    have hstart : start < s.size := by omega
    rcases (h.withTrivia A).significantIn_cases d hstart with ⟨u, hu, -⟩ | ⟨herror, hnone⟩
    · cases he.symm.trans hu
    · cases he.symm.trans herror
      refine (h.withTrivia B).significantIn_of_not_beyond hstart ?_
      intro k hk
      exact hnone k (hk.of_larger hAB)
  · rw [significantIn_withTrivia_of_outside s A d hi] at he
    rw [significantIn_withTrivia_of_outside s B d hi]
    exact he

end WellFormed

end Larger

/-- Sets with the same members make one store. -/
theorem significantIndices_congr {A B : TriviaSet} (h : ∀ type, type ∈ A.types ↔ type ∈ B.types)
    (tokens : Array Token) : significantIndices A tokens = significantIndices B tokens := by
  have hclass : ∀ t, A.isTrivia t = B.isTrivia t := by
    intro t
    rw [Bool.eq_iff_iff, isTrivia_iff, isTrivia_iff]
    exact h t.type
  simp only [significantIndices, hclass]

/-- Under a larger trivia set fewer tokens are significant, a search that failed fails as it
did, and one that finds a token passes over none that is nearer and significant under the
smaller set. Only the members of the set count, and a set that is made from a list has them
in the order in which they occur first. -/
theorem withTrivia_antitone [Limits] {s : Sequence} (hs : s.Constructible) :
    (∀ A B : TriviaSet, (∀ type ∈ A.types, type ∈ B.types) →
      (s.withTrivia B).significantTokens.Sublist (s.withTrivia A).significantTokens ∧
      (s.withTrivia B).significant.toList.Sublist (s.withTrivia A).significant.toList ∧
      ∀ i : Int,
        (∀ d e, (s.withTrivia A).significantIn d i = .error e →
          (s.withTrivia B).significantIn d i = .error e) ∧
        (∀ t, (s.withTrivia B).significantAfter i = .ok t →
          ∃ u, (s.withTrivia A).significantAfter i = .ok u ∧ i < u.index ∧ u.index ≤ t.index) ∧
        ∀ t, (s.withTrivia B).significantBefore i = .ok t →
          ∃ u, (s.withTrivia A).significantBefore i = .ok u ∧ t.index ≤ u.index ∧ u.index < i) ∧
    (∀ A B : TriviaSet, (∀ type, type ∈ A.types ↔ type ∈ B.types) →
      (s.withTrivia A).significant = (s.withTrivia B).significant ∧
      (∀ k, (s.withTrivia A).IsSignificant k ↔ (s.withTrivia B).IsSignificant k) ∧
      ∀ d i, (s.withTrivia A).significantIn d i = (s.withTrivia B).significantIn d i) ∧
    ∀ xs, ListsFirsts (TriviaSet.ofList xs).types xs ∧
      TriviaSet.ofList (TriviaSet.ofList xs).types = TriviaSet.ofList xs := by
  have h := hs.wellFormed
  refine ⟨?_, ?_, fun xs => ⟨listsFirsts_ofList xs, ofList_types xs⟩⟩
  · intro A B hAB
    refine ⟨significantTokens_sublist hAB s, ?_, fun i => ⟨?_, ?_, ?_⟩⟩
    · rw [(h.withTrivia B).significant_toList, (h.withTrivia A).significant_toList]
      exact (significantTokens_sublist hAB s).map _
    · intro d e he
      exact h.error_of_larger hAB he
    · intro t ht
      obtain ⟨u, hu, hbeyond, hnear⟩ := h.nearer_of_larger hAB ht
      simp only [Beyond] at hbeyond hnear
      exact ⟨u, hu, hbeyond, by omega⟩
    · intro t ht
      obtain ⟨u, hu, hbeyond, hnear⟩ := h.nearer_of_larger hAB ht
      simp only [Beyond] at hbeyond hnear
      exact ⟨u, hu, by omega, hbeyond⟩
  · intro A B hAB
    have hstore : (s.withTrivia A).significant = (s.withTrivia B).significant :=
      significantIndices_congr hAB s.tokens
    refine ⟨hstore, ?_, significantIn_congr rfl hstore⟩
    intro k
    exact ⟨fun hk => hk.of_larger fun type => (hAB type).2,
      fun hk => hk.of_larger fun type => (hAB type).1⟩

/-- Over a comment to the number behind it; without trivia the comment is nearer, and with
the type listed twice the number is found again. -/
theorem withTrivia_antitone_over_comment :
    ((ofLexemes #[.bare "(", .typed .comment "#", .typed .integerLiteral "1"]).withTrivia
        ⟨[.comment]⟩).significantAfter 0 = .ok ⟨2, .integerLiteral, "1"⟩ ∧
      (∃ u, ((ofLexemes #[.bare "(", .typed .comment "#",
          .typed .integerLiteral "1"]).withTrivia .empty).significantAfter 0 = .ok u ∧
        0 < (u.index : Int) ∧ u.index ≤ 2) ∧
      ((ofLexemes #[.bare "(", .typed .comment "#", .typed .integerLiteral "1"]).withTrivia
        ⟨[.comment, .comment]⟩).significantAfter 0 = .ok ⟨2, .integerLiteral, "1"⟩ := by
  have hnearest : ((ofLexemes #[.bare "(", .typed .comment "#",
      .typed .integerLiteral "1"]).withTrivia ⟨[.comment]⟩).nearest? 0 .forward = some 2 := by
    decide +kernel
  have hfound : ((ofLexemes #[.bare "(", .typed .comment "#",
      .typed .integerLiteral "1"]).withTrivia ⟨[.comment]⟩).significantAfter 0 =
        .ok ⟨2, .integerLiteral, "1"⟩ := by
    have hposition : ((ofLexemes #[.bare "(", .typed .comment "#",
        .typed .integerLiteral "1"]).withTrivia ⟨[.comment]⟩).position 0 = .ok 0 := rfl
    simp only [significantAfter, significantIn, hposition, hnearest]
    rfl
  obtain ⟨hlarger, hsame, -⟩ := withTrivia_antitone
    (.ofLexemes #[.bare "(", .typed .comment "#", .typed .integerLiteral "1"])
  refine ⟨hfound,
    ((hlarger .empty ⟨[.comment]⟩ (by simp [TriviaSet.empty])).2.2 0).2.1 _ hfound, ?_⟩
  exact ((hsame ⟨[.comment, .comment]⟩ ⟨[.comment]⟩ (by simp)).2.2 .forward 0).trans hfound

end Sequence

end PhpTokens
