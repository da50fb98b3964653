import PhpTokens.Proofs.Search

/-!
# What a sequence is made of

A sequence begins with lexemes at hand, or with the calls that a builder was
given; after that its trivia may be chosen anew, as often as one likes. A
`Recipe` is such a history, written down. Two things can be read off it without
making anything: the lexemes that went in (`Recipe.units`) and the last choice
of trivia (`Recipe.trivia`).

They are all that is left of the history. Whatever the recipe, the sequence is
the one that `assemble` makes of the two (`Recipe.make_eq`), because a builder
keeps nothing else (`foldl_apply`) and another choice of trivia forgets the one
before it. So the store of significant indices cannot be out of date, and what
the queries look up with its help is there.
-/

namespace PhpTokens.Sequence

open Search

namespace BuilderCall

/-- The lexeme that a call adds. -/
def unit? : BuilderCall → Option Lexeme
  | .typed type text => some (.typed type text)
  | .bare text => some (.bare text)
  | .lexeme l => some l
  | .trivia _ => none

/-- The trivia that a call chooses. -/
def choice? : BuilderCall → Option TriviaSet
  | .trivia set => some set
  | _ => none

/-- The lexemes that some calls add, in their order. -/
def units (calls : List BuilderCall) : List Lexeme := calls.filterMap unit?

/-- The trivia that some calls choose last, if they choose any. -/
def lastChoice? (calls : List BuilderCall) : Option TriviaSet := (calls.filterMap choice?).getLast?

theorem units_cons (call : BuilderCall) (calls : List BuilderCall) :
    units (call :: calls) = call.unit?.toList ++ units calls := by
  cases call <;> rfl

theorem lastChoice?_cons (call : BuilderCall) (calls : List BuilderCall) :
    lastChoice? (call :: calls) = (lastChoice? calls).or call.choice? := by
  cases call with
  | trivia set =>
      show (set :: calls.filterMap choice?).getLast? = _
      rw [List.getLast?_cons, lastChoice?]
      cases (calls.filterMap choice?).getLast? <;> rfl
  | _ => exact (Option.or_none).symm

theorem apply_eq (b : Builder) (call : BuilderCall) :
    call.apply b = ⟨b.lexemes ++ call.unit?.toList.toArray, call.choice?.getD b.trivia⟩ := by
  cases call <;> rfl

/-- A builder keeps the lexemes it was given and the last choice of trivia. -/
theorem foldl_apply (calls : List BuilderCall) (b : Builder) :
    calls.foldl apply b =
      ⟨b.lexemes ++ (units calls).toArray, (lastChoice? calls).getD b.trivia⟩ := by
  induction calls generalizing b with
  | nil => simp [units, lastChoice?]
  | cons call calls ih =>
      rw [List.foldl_cons, ih, apply_eq, units_cons, lastChoice?_cons, Option.getD_or,
        ← List.append_toArray, Array.append_assoc]

theorem build_foldl_apply (calls : List BuilderCall) :
    (calls.foldl apply {}).build =
      assemble (units calls).toArray ((lastChoice? calls).getD .default) := by
  rw [foldl_apply, Builder.build, Array.empty_append]

end BuilderCall

open BuilderCall

/-- However the calls are mixed, a builder makes what their lexemes make at once, under the
last trivia that was chosen; and of two choices the second counts. -/
theorem build_eq_ofLexemes_withTrivia (calls : List BuilderCall) :
    (calls.foldl apply {}).build =
        (ofLexemes (units calls).toArray).withTrivia ((lastChoice? calls).getD .default) ∧
      ∀ (s : Sequence) (A B : TriviaSet), (s.withTrivia A).withTrivia B = s.withTrivia B := by
  refine ⟨?_, fun s A B => rfl⟩
  rw [build_foldl_apply]
  rfl

/-- A way to make a sequence. -/
inductive Recipe where
  | lexemes (units : Array Lexeme)
  | builder (calls : List BuilderCall)
  | withTrivia (recipe : Recipe) (trivia : TriviaSet)
deriving DecidableEq, Repr

namespace Recipe

/-- The sequence that is made. -/
def make : Recipe → Sequence
  | .lexemes units => ofLexemes units
  | .builder calls => (calls.foldl apply {}).build
  | .withTrivia recipe trivia => recipe.make.withTrivia trivia

/-- The lexemes that go in. -/
def units : Recipe → Array Lexeme
  | .lexemes units => units
  | .builder calls => (BuilderCall.units calls).toArray
  | .withTrivia recipe _ => recipe.units

/-- The trivia in the end. -/
def trivia : Recipe → TriviaSet
  | .lexemes _ => .default
  | .builder calls => (lastChoice? calls).getD .default
  | .withTrivia _ trivia => trivia

theorem make_eq (recipe : Recipe) : recipe.make = assemble recipe.units recipe.trivia := by
  induction recipe with
  | lexemes units => rfl
  | builder calls => exact build_foldl_apply calls
  | withTrivia recipe trivia ih =>
      show recipe.make.withTrivia trivia = _
      rw [ih]
      rfl

end Recipe

/-- The sequence holds the lexemes in their places, each as a token that knows its index, and
its store lists the significant places in increasing order. -/
structure Represents (s : Sequence) (units : Array Lexeme) (trivia : TriviaSet) : Prop where
  size_eq : s.size = units.size
  trivia_eq : s.trivia = trivia
  get?_eq : ∀ i, s.get? i = units[i]?.map fun l => ⟨i, l.type?.getD .identifier, l.text⟩
  increasing : s.significant.toList.Pairwise (· < ·)
  mem_iff : ∀ i, i ∈ s.significant ↔
    ∃ l, units[i]? = some l ∧ l.type?.getD .identifier ∉ trivia.types

/-- No look-up of a query misses: where an index is accepted there is a token, before a
partition point there is a stored index, and at a stored index there is a token. -/
structure LookupsHit (s : Sequence) : Prop where
  accepted : ∀ i p, s.position i = .ok p → ∃ t, s.get? p = some t ∧ s.at? i = .ok t
  stored : ∀ start k, partitionPoint s.significant (· < start) = k + 1 →
    ∃ j, s.significant[k]? = some j ∧ s.nearest? start .backward = some j
  found : ∀ d i start j, s.position i = .ok start → s.nearest? start d = some j →
    ∃ t, s.get? j = some t ∧ s.significantIn d i = .ok t

theorem assemble_represents (units : Array Lexeme) (trivia : TriviaSet) :
    (assemble units trivia).Represents units trivia where
  size_eq := Array.size_mapIdx
  trivia_eq := rfl
  get?_eq := assemble_get? units trivia
  increasing := (assemble_wellFormed units trivia).significant_pairwise
  mem_iff := by
    intro i
    have hclass : ∀ t, (assemble units trivia).trivia.isTrivia t = trivia.types.contains t.type :=
      fun t => rfl
    simp only [(assemble_wellFormed units trivia).mem_significant_iff, IsSignificant,
      assemble_get?, Option.map_eq_some_iff, hclass, List.contains_eq_mem, decide_eq_false_iff_not]
    refine ⟨fun h => ?_, fun h => ?_⟩
    · obtain ⟨t, ⟨l, hl, rfl⟩, htrivia⟩ := h
      exact ⟨l, hl, htrivia⟩
    · obtain ⟨l, hl, htrivia⟩ := h
      exact ⟨Token.ofLexeme i l, ⟨l, hl, rfl⟩, htrivia⟩

theorem position_lt {s : Sequence} {i : Int} {p : Nat} (h : s.position i = .ok p) :
    p < s.size := by
  rw [position] at h
  split at h
  · next hi => cases h; omega
  · cases h

theorem exists_get?_of_lt {s : Sequence} {i : Nat} (h : i < s.size) : ∃ t, s.get? i = some t :=
  ⟨s.tokens[i], Array.getElem?_eq_getElem h⟩

theorem WellFormed.lookupsHit {s : Sequence} (h : s.WellFormed) : s.LookupsHit where
  accepted := by
    intro i p hp
    obtain ⟨t, ht⟩ := exists_get?_of_lt (position_lt hp)
    exact ⟨t, ht, by simp only [at?, hp, ht]⟩
  stored := by
    intro start k hk
    have hle := (h.isPartitionPoint_lt start).le_size
    have hlt : k < s.significant.size := by omega
    exact ⟨s.significant[k], Array.getElem?_eq_getElem hlt, by
      simp only [nearest?, hk, Array.getElem?_eq_getElem hlt]⟩
  found := by
    intro d i start j hstart hj
    obtain ⟨t, ht⟩ := exists_get?_of_lt (h.nearest_of_nearest? hj).isSignificant.lt_size
    exact ⟨t, ht, by simp only [significantIn, hstart, hj, Option.bind_some, ht]⟩

/-- Every sequence that can be made holds what went into it, in order, with the significant
places under its last trivia; another choice of trivia leaves the tokens alone; and no query
looks for something that is not there. -/
theorem make_represents (recipe : Recipe) :
    recipe.make.Represents recipe.units recipe.trivia ∧ recipe.make.LookupsHit ∧
      ∀ trivia, (recipe.make.withTrivia trivia).tokens = recipe.make.tokens := by
  rw [recipe.make_eq]
  exact ⟨assemble_represents _ _, (assemble_wellFormed _ _).lookupsHit, fun _ => rfl⟩

end PhpTokens.Sequence
