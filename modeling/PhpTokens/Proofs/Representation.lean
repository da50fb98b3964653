import PhpTokens.Sequence.Report

/-!
# What every sequence keeps

A sequence stores the indices of its significant tokens beside the tokens. The
searches trust that store, so it has to be right whichever way the sequence
came about: from lexemes, from a source through any lexer, piece by piece
through a builder, and after any number of changes of the trivia set.

`Constructible` lists those ways and `WellFormed` says what is kept: every
token knows its own index, and the stored indices are those that the tokens and
the trivia set determine. Both facts are all that a search needs, because they
make the store strictly increasing (`significant_pairwise`) and exact
(`mem_significant_iff`).
-/

namespace PhpTokens.Sequence

open Log

/-- The sequences that can be made. -/
inductive Constructible [Limits] : Sequence → Prop where
  | ofLexemes (lexemes : Array Lexeme) : Constructible (ofLexemes lexemes)
  | ofSourceWith {ε : Type} {source : String} {run : Logged (Except ε (Array Lexeme))}
      {s : Sequence} (h : (ofSourceWith source run).value = .ok s) : Constructible s
  | build (calls : List BuilderCall) : Constructible (calls.foldl BuilderCall.apply {}).build
  | withTrivia {s : Sequence} (hs : Constructible s) (trivia : TriviaSet) :
      Constructible (s.withTrivia trivia)

/-- Every token knows its index, and the stored indices are the significant
ones. -/
structure WellFormed (s : Sequence) : Prop where
  index_eq : ∀ i t, s.get? i = some t → t.index = i
  significant_eq : s.significant = significantIndices s.trivia s.tokens

/-- The token at an index exists and is no trivia. -/
def IsSignificant (s : Sequence) (i : Nat) : Prop :=
  ∃ t, s.get? i = some t ∧ s.trivia.isTrivia t = false

/-- Making a sequence from a source keeps the lexemes of the run and its
error. -/
theorem ofSourceWith_value [Limits] {ε : Type} (source : String)
    (run : Logged (Except ε (Array Lexeme))) :
    (ofSourceWith source run).value = run.value.map ofLexemes := by
  match run with
  | ⟨.error e, events⟩ => rfl
  | ⟨.ok lexemes, events⟩ => rfl

theorem assemble_get? (lexemes : Array Lexeme) (trivia : TriviaSet) (i : Nat) :
    (assemble lexemes trivia).get? i = lexemes[i]?.map (Token.ofLexeme i) := by
  simp only [get?, assemble, Array.getElem?_mapIdx]

/-- What does not depend on the index can be read off the lexemes. -/
theorem assemble_map {β : Type} {f : Token → β} {g : Lexeme → β}
    (h : ∀ i l, f (Token.ofLexeme i l) = g l) (lexemes : Array Lexeme) (trivia : TriviaSet) :
    (assemble lexemes trivia).tokens.toList.map f = lexemes.toList.map g := by
  refine List.ext_getElem? fun i => ?_
  rw [List.getElem?_map, List.getElem?_map, Array.getElem?_toList, Array.getElem?_toList]
  have hi : (assemble lexemes trivia).tokens[i]? = lexemes[i]?.map (Token.ofLexeme i) :=
    assemble_get? lexemes trivia i
  rw [hi, Option.map_map]
  exact congrArg (lexemes[i]?.map ·) (funext (h i))

theorem assemble_contents (lexemes : Array Lexeme) (trivia : TriviaSet) :
    (assemble lexemes trivia).tokens.toList.map (·.content) =
      lexemes.toList.map (·.text) :=
  assemble_map (fun _ _ => rfl) lexemes trivia

theorem assemble_wellFormed (lexemes : Array Lexeme) (trivia : TriviaSet) :
    (assemble lexemes trivia).WellFormed := by
  refine ⟨?_, rfl⟩
  intro i t ht
  rw [assemble_get?, Option.map_eq_some_iff] at ht
  obtain ⟨l, -, rfl⟩ := ht
  rfl

theorem WellFormed.withTrivia {s : Sequence} (h : s.WellFormed) (trivia : TriviaSet) :
    (s.withTrivia trivia).WellFormed :=
  ⟨h.index_eq, rfl⟩

/-- However a sequence is made, it is well formed. -/
theorem Constructible.wellFormed [Limits] {s : Sequence} (h : s.Constructible) : s.WellFormed := by
  induction h with
  | ofLexemes lexemes => exact assemble_wellFormed lexemes .default
  | @ofSourceWith ε source run s hs =>
      rw [ofSourceWith_value] at hs
      cases hrun : run.value with
      | error e =>
          rw [hrun] at hs
          cases hs
      | ok lexemes =>
          rw [hrun] at hs
          cases hs
          exact assemble_wellFormed lexemes .default
  | build calls => exact assemble_wellFormed _ _
  | withTrivia _ trivia ih => exact ih.withTrivia trivia

namespace WellFormed

variable {s : Sequence}

theorem tokens_pairwise (h : s.WellFormed) :
    s.tokens.toList.Pairwise fun a b => a.index < b.index := by
  rw [List.pairwise_iff_getElem]
  intro i j hi hj hij
  have index_at : ∀ k (hk : k < s.tokens.toList.length), s.tokens.toList[k].index = k := by
    intro k hk
    refine h.index_eq k _ ?_
    rw [get?, ← Array.getElem?_toList, List.getElem?_eq_getElem hk]
  rw [index_at i hi, index_at j hj]
  exact hij

/-- The stored indices are strictly increasing. -/
theorem significant_pairwise (h : s.WellFormed) : s.significant.toList.Pairwise (· < ·) := by
  rw [h.significant_eq, significantIndices, Array.toList_map, Array.toList_filter,
    List.pairwise_map]
  exact h.tokens_pairwise.filter _

/-- The stored indices are exactly those of the significant tokens. -/
theorem mem_significant_iff (h : s.WellFormed) {i : Nat} :
    i ∈ s.significant ↔ s.IsSignificant i := by
  rw [h.significant_eq, significantIndices, Array.mem_map]
  constructor
  · intro hi
    obtain ⟨t, ht, rfl⟩ := hi
    obtain ⟨hmem, htrivia⟩ := Array.mem_filter.1 ht
    obtain ⟨k, hk⟩ := Array.mem_iff_getElem?.1 hmem
    refine ⟨t, ?_, by simpa using htrivia⟩
    rw [h.index_eq k t hk]
    exact hk
  · intro hi
    obtain ⟨t, ht, htrivia⟩ := hi
    refine ⟨t, Array.mem_filter.2 ⟨Array.mem_of_getElem? ht, ?_⟩, h.index_eq i t ht⟩
    rw [htrivia]
    rfl

end WellFormed

end PhpTokens.Sequence
