import Mathlib.Data.List.DropRight
import PhpTokens.Position

/-!
# Lines and columns of 32 bits

What a position says in the end depends on the text before it alone: its bytes,
its line feeds, and the characters behind the last of them (`advanceBy_start`).
`lineOf` and `columnOf` are the line and the column without a bound, of which a
position keeps 32 bits.

A text fits if the bound is met nowhere in it. Then a position says the very
numbers (`Fits.toNat_line`, `Fits.toNat_column`), and arithmetic that checks every
step answers (`advanceBy?_of_fits`). Where a text does not fit it fails
(`advanceBy?_of_not_fits`), so the two modes of arithmetic part there and nowhere
else.
-/

namespace PhpTokens.Position

/-- The line of the place behind a text, counted without a bound. -/
def lineOf (cs : List Char) : Nat := 1 + cs.count '\n'

/-- The column of the place behind a text, counted without a bound. -/
def columnOf (cs : List Char) : Nat := 1 + (cs.rtakeWhile (· != '\n')).length

theorem lineOf_concat (cs : List Char) (c : Char) :
    lineOf (cs ++ [c]) = if c = '\n' then lineOf cs + 1 else lineOf cs := by
  rw [lineOf, List.count_append, List.count_singleton, ← Nat.add_assoc]
  by_cases hc : c = '\n' <;> simp [hc, lineOf]

theorem columnOf_concat (cs : List Char) (c : Char) :
    columnOf (cs ++ [c]) = if c = '\n' then 1 else columnOf cs + 1 := by
  rw [columnOf, List.rtakeWhile_concat]
  by_cases hc : c = '\n' <;> simp [hc, columnOf, Nat.add_assoc]

theorem lineOf_le (cs : List Char) : lineOf cs ≤ 1 + cs.length :=
  Nat.add_le_add_left List.count_le_length 1

theorem columnOf_le (cs : List Char) : columnOf cs ≤ 1 + cs.length :=
  Nat.add_le_add_left (List.rtakeWhile_suffix _ cs).length_le 1

/-- The place behind a text: how many bytes it has, and 32 bits of its line and its column. -/
def behind (text : String) : Position where
  offset := text.utf8ByteSize
  line := .ofNat (lineOf text.toList)
  column := .ofNat (columnOf text.toList)

theorem advanceBy_start (cs : List Char) : start.advanceBy cs = behind (String.ofList cs) := by
  induction cs using List.reverseRecOn with
  | nil => rfl
  | append_singleton cs c ih =>
      have hbytes : (String.ofList (cs ++ [c])).utf8ByteSize =
          (String.ofList cs).utf8ByteSize + c.utf8Size := by
        rw [← Text.byteLength_eq_utf8ByteSize, ← Text.byteLength_eq_utf8ByteSize,
          Text.byteLength_append, Text.byteLength_cons, Text.byteLength_nil, Nat.add_zero]
      rw [advanceBy_append, ih, advanceBy_cons, advanceBy_nil, advance]
      simp only [behind, hbytes, String.toList_ofList, lineOf_concat, columnOf_concat]
      split
      · next hc =>
          rw [hc, UInt32.ofNat_add]
          rfl
      · rw [UInt32.ofNat_add]
        rfl

/-- The lines and columns of a text are numbers of 32 bits, at its end and at every place
before. -/
def Fits (cs : List Char) : Prop :=
  ∀ head, head <+: cs → lineOf head < UInt32.size ∧ columnOf head < UInt32.size

namespace Fits

theorem of_head {head cs : List Char} (h : Fits cs) (hhead : head <+: cs) : Fits head :=
  fun _ hshorter => h _ (hshorter.trans hhead)

theorem of_length_lt {cs : List Char} (h : 1 + cs.length < UInt32.size) : Fits cs := by
  intro head hhead
  have hlength := hhead.length_le
  exact ⟨by have := lineOf_le head; omega, by have := columnOf_le head; omega⟩

theorem nil : Fits [] := of_length_lt (by decide)

theorem toNat_line {text : String} (h : Fits text.toList) :
    (behind text).line.toNat = lineOf text.toList :=
  UInt32.toNat_ofNat_of_lt' (h _ List.prefix_rfl).1

theorem toNat_column {text : String} (h : Fits text.toList) :
    (behind text).column.toNat = columnOf text.toList :=
  UInt32.toNat_ofNat_of_lt' (h _ List.prefix_rfl).2

/-- One more character fits if the counter that it moves has room. -/
theorem concat_iff {cs : List Char} (h : Fits cs) (c : Char) :
    Fits (cs ++ [c]) ↔ (if c = '\n' then lineOf cs else columnOf cs) + 1 < UInt32.size := by
  have hhere := h cs List.prefix_rfl
  have hend : Fits (cs ++ [c]) ↔
      lineOf (cs ++ [c]) < UInt32.size ∧ columnOf (cs ++ [c]) < UInt32.size := by
    refine ⟨fun hmore => hmore _ List.prefix_rfl, fun hmore head hhead => ?_⟩
    rcases List.prefix_concat_iff.1 hhead with rfl | hhead
    · exact hmore
    · exact h head hhead
  have hone : 1 < UInt32.size := by decide
  rw [hend, lineOf_concat, columnOf_concat]
  split
  · exact and_iff_left hone
  · exact and_iff_right hhere.1

end Fits

theorem advance?_behind {cs : List Char} (h : Fits cs) (c : Char) :
    (start.advanceBy cs).advance? c =
      if (if c = '\n' then lineOf cs else columnOf cs) + 1 < UInt32.size
      then some (start.advanceBy (cs ++ [c])) else none := by
  have htext : Fits (String.ofList cs).toList := by rwa [String.toList_ofList]
  have hline := htext.toNat_line
  have hcolumn := htext.toNat_column
  rw [String.toList_ofList] at hline hcolumn
  rw [advanceBy_append, advanceBy_cons, advanceBy_nil, advance?]
  simp only [apply_ite UInt32.toNat, advanceBy_start, hline, hcolumn]

/-- Checked arithmetic answers all through a text that fits. -/
theorem advanceBy?_of_fits {front cs : List Char} (h : Fits (front ++ cs)) :
    (start.advanceBy front).advanceBy? cs = some (start.advanceBy (front ++ cs)) := by
  induction cs generalizing front with
  | nil => rw [advanceBy?_nil, List.append_nil]
  | cons c cs ih =>
      rw [List.append_cons] at h ⊢
      have hmore : Fits (front ++ [c]) := h.of_head (List.prefix_append _ _)
      have hfront : Fits front := hmore.of_head (List.prefix_append _ _)
      have hroom := (hfront.concat_iff c).1 hmore
      rw [advanceBy?_cons, advance?_behind hfront, if_pos hroom]
      exact ih h

/-- Somewhere in a text that does not fit checked arithmetic fails. -/
theorem advanceBy?_of_not_fits {front cs : List Char} (hfront : Fits front)
    (h : ¬ Fits (front ++ cs)) : (start.advanceBy front).advanceBy? cs = none := by
  induction cs generalizing front with
  | nil =>
      rw [List.append_nil] at h
      exact absurd hfront h
  | cons c cs ih =>
      rw [List.append_cons] at h
      rw [advanceBy?_cons, advance?_behind hfront]
      by_cases hroom : (if c = '\n' then lineOf front else columnOf front) + 1 < UInt32.size
      · rw [if_pos hroom]
        exact ih ((hfront.concat_iff c).2 hroom) h
      · rw [if_neg hroom]
        rfl

end PhpTokens.Position
