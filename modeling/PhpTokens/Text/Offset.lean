/-!
# Finding the first place where a text continues in some way

Most extents in this library end at the first place where the rest of the text
satisfies a condition: the next tag, the end of a comment, the first character
outside a class. `offsetOf?` answers that question once for all of them, and
`offsetOf?_eq_some_iff` says that it answers with the first such place.
-/

namespace PhpTokens.Text

/-- `offsetOf?` with `n` characters already passed. -/
def offsetFrom? (p : List Char → Bool) (n : Nat) : List Char → Option Nat
  | [] => if p [] then some n else none
  | c :: cs => if p (c :: cs) then some n else offsetFrom? p (n + 1) cs

/-- Number of characters before the first rest of `cs` that satisfies `p`. The
empty rest at the end of the text is the last candidate. -/
def offsetOf? (p : List Char → Bool) (cs : List Char) : Option Nat :=
  offsetFrom? p 0 cs

theorem offsetFrom?_eq_some_iff {p : List Char → Bool} {n k : Nat} {cs : List Char} :
    offsetFrom? p n cs = some k ↔
      n ≤ k ∧ k ≤ n + cs.length ∧ p (cs.drop (k - n)) = true ∧
        ∀ m < k - n, p (cs.drop m) = false := by
  induction cs generalizing n with
  | nil =>
      simp only [offsetFrom?, List.length_nil, Nat.add_zero, List.drop_nil]
      split <;> rename_i hp
      · constructor
        · rintro ⟨⟩
          exact ⟨by omega, by omega, hp, by omega⟩
        · rintro ⟨h₁, h₂, -⟩
          exact congrArg some (Nat.le_antisymm h₁ h₂)
      · simp only [reduceCtorEq, false_iff]
        rintro ⟨-, -, h, -⟩
        exact hp h
  | cons c cs ih =>
      simp only [offsetFrom?, List.length_cons]
      split <;> rename_i hp
      · constructor
        · rintro ⟨⟩
          exact ⟨by omega, by omega, by simpa using hp, by omega⟩
        · rintro ⟨h₁, -, -, h₄⟩
          rcases Nat.eq_or_lt_of_le h₁ with rfl | hlt
          · rfl
          · have := h₄ 0 (by omega)
            simp [hp] at this
      · rw [ih]
        constructor
        · rintro ⟨h₁, h₂, h₃, h₄⟩
          obtain ⟨j, rfl⟩ := Nat.exists_eq_add_of_le h₁
          refine ⟨by omega, by omega, ?_, ?_⟩
          · have : n + 1 + j - n = (n + 1 + j - (n + 1)) + 1 := by omega
            rw [this, List.drop_succ_cons]
            exact h₃
          · intro m hm
            match m with
            | 0 => simpa using hp
            | m + 1 =>
                rw [List.drop_succ_cons]
                exact h₄ m (by omega)
        · rintro ⟨h₁, h₂, h₃, h₄⟩
          rcases Nat.eq_or_lt_of_le h₁ with rfl | hlt
          · simp [hp] at h₃
          · obtain ⟨j, rfl⟩ := Nat.exists_eq_add_of_le (Nat.succ_le_of_lt hlt)
            refine ⟨by omega, by omega, ?_, ?_⟩
            · have : n.succ + j - n = (n.succ + j - (n + 1)) + 1 := by omega
              rw [this, List.drop_succ_cons] at h₃
              exact h₃
            · intro m hm
              have := h₄ (m + 1) (by omega)
              rwa [List.drop_succ_cons] at this

/-- The answer is the first place whose rest satisfies the condition. -/
theorem offsetOf?_eq_some_iff {p : List Char → Bool} {k : Nat} {cs : List Char} :
    offsetOf? p cs = some k ↔
      k ≤ cs.length ∧ p (cs.drop k) = true ∧ ∀ m < k, p (cs.drop m) = false := by
  rw [offsetOf?, offsetFrom?_eq_some_iff]
  simp

theorem offsetFrom?_eq_none {p : List Char → Bool} {n : Nat} {cs : List Char}
    (h : offsetFrom? p n cs = none) (m : Nat) : p (cs.drop m) = false := by
  induction cs generalizing n m with
  | nil =>
      rw [offsetFrom?] at h
      split at h
      · cases h
      · next hp =>
          rw [List.drop_nil]
          exact eq_false_of_ne_true hp
  | cons c cs ih =>
      rw [offsetFrom?] at h
      split at h
      · cases h
      · next hp =>
          match m with
          | 0 => exact eq_false_of_ne_true hp
          | m + 1 => exact ih h m

/-- Without an answer no place satisfies the condition. -/
theorem offsetOf?_eq_none {p : List Char → Bool} {cs : List Char} (h : offsetOf? p cs = none)
    (m : Nat) : p (cs.drop m) = false :=
  offsetFrom?_eq_none h m

end PhpTokens.Text
