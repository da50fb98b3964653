import PhpTokens.Operator
import PhpTokens.Proofs.Lookup

/-!
# Longest matches

Numbers and operators are read as far as they go: of all the heads of the text
at hand that are numbers, or operators, the longest is the lexeme. `IsLongest`
says that of any class of texts. It is all that is needed to move a lexeme from
one text to another, since a longer match in the second text would begin with
the lexeme and go on with some text behind it, and the first text must not
begin like that (`IsLongest.congr`).

For operators the class is a table. No entry is longer than the longest length
tried nor shorter than the shortest, and the lengths are tried in falling order,
so the first hit is the longest match (`leading?_eq_some_iff`).
-/

namespace PhpTokens.Lexer

/-- `t` is the longest head of `cs` in a class of texts. -/
structure IsLongest (P : List Char → Prop) (t cs : List Char) : Prop where
  head : t <+: cs
  holds : P t
  length_le : ∀ x, x <+: cs → P x → x.length ≤ t.length

theorem IsLongest.unique {P : List Char → Prop} {t t' cs : List Char} (h : IsLongest P t cs)
    (h' : IsLongest P t' cs) : t = t' := by
  have hle := h'.length_le t h.head h.holds
  have hge := h.length_le t' h'.head h'.holds
  exact (List.prefix_of_prefix_length_le h.head h'.head hle).eq_of_length (by omega)

/-- A match at the head of `t ++ r'` is one of `t ++ r`, if `r` begins with all
that could make a longer match of `t`. -/
theorem head_of_match {P : List Char → Prop} {t r r' x : List Char}
    (hr : ∀ y, y <+: r' → P (t ++ y) → y <+: r) (hx : x <+: t ++ r') (hP : P x) :
    x <+: t ++ r := by
  rcases Nat.le_total x.length t.length with hle | hle
  · have ht : x <+: t := List.prefix_of_prefix_length_le hx (List.prefix_append t r') hle
    exact ht.trans (List.prefix_append t r)
  · obtain ⟨y, rfl⟩ := List.prefix_of_prefix_length_le (List.prefix_append t r') hx hle
    have hy : y <+: r' := (List.prefix_append_right_inj t).1 hx
    exact (List.prefix_append_right_inj t).2 (hr y hy hP)

theorem IsLongest.congr {P : List Char → Prop} {t r r' : List Char} (h : IsLongest P t (t ++ r))
    (hr : ∀ y, y <+: r' → P (t ++ y) → y <+: r) : IsLongest P t (t ++ r') where
  head := List.prefix_append t r'
  holds := h.holds
  length_le := fun x hx hP => h.length_le x (head_of_match hr hx hP) hP

end PhpTokens.Lexer

namespace PhpTokens.Operator

open Lexer

/-- The spellings of operators. -/
def IsSymbol (t : List Char) : Prop := ∃ o, ofSymbol? (String.ofList t) = some o

/-- What holds of all spellings can be checked one by one. -/
theorem of_isSymbol {p : List Char → Bool} {t : List Char} (h : IsSymbol t)
    (hsymbols : symbols.all (fun entry => p entry.1.toList) = true) : p t = true := by
  obtain ⟨o, ho⟩ := h
  have hp := List.all_eq_true.1 hsymbols _ (mem_of_lookup_eq_some ho)
  rwa [String.toList_ofList] at hp

theorem IsSymbol.length_mem {t : List Char} (h : IsSymbol t) : t.length ∈ lengths :=
  of_decide_eq_true (of_isSymbol (p := fun t => decide (t.length ∈ lengths)) h (by decide))

theorem ofHead?_eq_some_iff {n : Nat} {cs : List Char} {o : Operator} :
    ofHead? n cs = some o ↔
      ∃ t, t <+: cs ∧ t.length = n ∧ ofSymbol? (String.ofList t) = some o := by
  simp only [ofHead?]
  constructor
  · intro h
    split at h
    · next hlength => exact ⟨cs.take n, List.take_prefix n cs, hlength, h⟩
    · cases h
  · intro h
    obtain ⟨t, ht, rfl, ho⟩ := h
    rw [← List.prefix_iff_eq_take.1 ht, if_pos rfl]
    exact ho

theorem ofHead?_eq_none_iff {n : Nat} {cs : List Char} :
    ofHead? n cs = none ↔ ∀ t, t <+: cs → t.length = n → ¬ IsSymbol t := by
  rw [Option.eq_none_iff_forall_ne_some]
  constructor
  · intro h t ht hlength hsymbol
    obtain ⟨o, ho⟩ := hsymbol
    exact h o (ofHead?_eq_some_iff.2 ⟨t, ht, hlength, ho⟩)
  · intro h o ho
    obtain ⟨t, ht, hlength, ho⟩ := ofHead?_eq_some_iff.1 ho
    exact h t ht hlength ⟨o, ho⟩

theorem leading?_eq_none_iff {cs : List Char} :
    leading? cs = none ↔ ∀ t, t <+: cs → ¬ IsSymbol t := by
  rw [leading?, List.findSome?_eq_none_iff]
  simp only [Option.map_eq_none_iff, ofHead?_eq_none_iff]
  constructor
  · intro h t ht hsymbol
    exact h t.length hsymbol.length_mem t ht rfl hsymbol
  · intro h _ _ t ht _
    exact h t ht

theorem isLongest_of_leading? {cs : List Char} {o : Operator} {n : Nat}
    (h : leading? cs = some (o, n)) :
    ∃ t, n = t.length ∧ ofSymbol? (String.ofList t) = some o ∧ IsLongest IsSymbol t cs := by
  obtain ⟨longer, m, shorter, hlengths, hm, hnone⟩ := List.findSome?_eq_some_iff.1 h
  obtain ⟨_, hhead, hpair⟩ := Option.map_eq_some_iff.1 hm
  cases hpair
  obtain ⟨t, ht, rfl, ho⟩ := ofHead?_eq_some_iff.1 hhead
  refine ⟨t, rfl, ho, ht, ⟨o, ho⟩, ?_⟩
  intro x hx hsymbol
  -- The length of `x` is one of those tried: before, now, or not yet.
  have hmem := hsymbol.length_mem
  have hsorted := lengths_pairwise
  rw [hlengths] at hmem hsorted
  rcases List.mem_append.1 hmem with hbefore | hmem
  · have hmiss := ofHead?_eq_none_iff.1 (Option.map_eq_none_iff.1 (hnone _ hbefore))
    exact absurd hsymbol (hmiss x hx rfl)
  · rcases List.mem_cons.1 hmem with heq | hafter
    · exact Nat.le_of_eq heq
    · have hcons := (List.pairwise_append.1 hsorted).2.1
      exact Nat.le_of_lt (List.rel_of_pairwise_cons hcons hafter)

theorem leading?_eq_some_iff {cs : List Char} {o : Operator} {n : Nat} :
    leading? cs = some (o, n) ↔
      ∃ t, n = t.length ∧ ofSymbol? (String.ofList t) = some o ∧ IsLongest IsSymbol t cs := by
  refine ⟨isLongest_of_leading?, ?_⟩
  intro h
  obtain ⟨t, rfl, ho, hlongest⟩ := h
  cases hleading : leading? cs with
  | none => exact absurd ⟨o, ho⟩ (leading?_eq_none_iff.1 hleading t hlongest.head)
  | some found =>
      obtain ⟨t', hlength, ho', hlongest'⟩ := isLongest_of_leading? hleading
      obtain rfl := hlongest.unique hlongest'
      obtain ⟨o', n⟩ := found
      cases hlength
      rw [ho] at ho'
      cases ho'
      rfl

end PhpTokens.Operator
