/-!
# Tables

A table is a list of pairs in which a key is looked up from the front. Tables of
words and symbols, of counts and of details are all of this kind.
-/

namespace PhpTokens

/-- The first entry is looked at before the others. -/
theorem lookup_cons_eq_ite {α β : Type} [DecidableEq α] (a : α) (e : α × β)
    (table : List (α × β)) :
    (e :: table).lookup a = if a = e.1 then some e.2 else table.lookup a := by
  by_cases h : a = e.1
  · rw [List.lookup_cons, beq_iff_eq.2 h, if_pos h]
  · rw [List.lookup_cons, beq_eq_false_iff_ne.2 h, if_neg h]

theorem mem_of_lookup_eq_some {α : Type} {table : List (String × α)} {text : String} {a : α}
    (h : table.lookup text = some a) : (text, a) ∈ table := by
  obtain ⟨before, after, rfl, -⟩ := List.lookup_eq_some_iff.1 h
  exact List.mem_append_right before List.mem_cons_self

/-- Two tables that agree entry by entry agree on all texts. `all` holds everything that
is spelled, and `other` is the one entry that the spellings do not give. -/
theorem lookup_eq_some_iff_of_tables {α : Type} [DecidableEq α] {all : List α}
    (hall : ∀ a, a ∈ all) (table : List (String × α)) (spelling : α → String)
    (other : String × α)
    (hentries : table.all (fun e => e.1 == spelling e.2 || e == other) = true)
    (hspelling : all.all (fun a => table.lookup (spelling a) == some a) = true)
    (hother : table.lookup other.1 = some other.2) (text : String) (a : α) :
    table.lookup text = some a ↔ text = spelling a ∨ (a = other.2 ∧ text = other.1) := by
  constructor
  · intro h
    have hentry := List.all_eq_true.1 hentries _ (mem_of_lookup_eq_some h)
    rcases Bool.or_eq_true_iff.1 hentry with hspelled | hsecond
    · exact .inl (eq_of_beq hspelled)
    · have heq : (text, a) = other := eq_of_beq hsecond
      exact .inr ⟨congrArg Prod.snd heq, congrArg Prod.fst heq⟩
  · rintro (rfl | ⟨rfl, rfl⟩)
    · exact eq_of_beq (List.all_eq_true.1 hspelling a (hall a))
    · exact hother

end PhpTokens
