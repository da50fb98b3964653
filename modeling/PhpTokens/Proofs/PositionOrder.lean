import PhpTokens.Proofs.ByteSlice
import PhpTokens.Proofs.LineColumn

/-!
# The order of positions

A position counts bytes and, apart from them, lines and columns. The column
starts again on every line, so it says nothing by itself, but with the line it
gives an order of its own: that of reading. One character further is further on
in both orders (`precedes_concat`), and so is any text that is not empty
(`precedes_append`).

Of two places in one text either is behind the other, by the text between them.
So the two orders agree there with each other and with the lengths of the heads
that lead to the places (`precedes_iff_byteLength_lt`, `cmp_eq_lt_iff_byteLength_lt`).
Where the text fits, a position says its line and its column in full
(`toNat_line_endOf`, `toNat_column_endOf`), and the two belong to one offset.
-/

namespace PhpTokens

namespace Position

/-- The place where a text ends that begins at the start. -/
def endOf (text : String) : Position := start.advanceBy text.toList

/-- The order of reading: an earlier line, or an earlier column of the same line. -/
def Precedes (x y : List Char) : Prop :=
  lineOf x < lineOf y ∨ lineOf x = lineOf y ∧ columnOf x < columnOf y

theorem Precedes.trans {x y z : List Char} (hxy : Precedes x y) (hyz : Precedes y z) :
    Precedes x z := by
  unfold Precedes at *
  omega

theorem Precedes.asymm {x y : List Char} (h : Precedes x y) : ¬ Precedes y x := by
  unfold Precedes at *
  omega

theorem precedes_concat (x : List Char) (c : Char) : Precedes x (x ++ [c]) := by
  rw [Precedes, lineOf_concat, columnOf_concat]
  split
  · exact .inl (Nat.lt_succ_self _)
  · exact .inr ⟨rfl, Nat.lt_succ_self _⟩

theorem precedes_append (x : List Char) {cs : List Char} (h : cs ≠ []) :
    Precedes x (x ++ cs) := by
  induction cs generalizing x with
  | nil => exact absurd rfl h
  | cons c cs ih =>
      rw [List.append_cons]
      by_cases hcs : cs = []
      · subst hcs
        rw [List.append_nil]
        exact precedes_concat x c
      · exact (precedes_concat x c).trans (ih _ hcs)

section

variable {source x y : List Char}

/-- A shorter head of a text is a head of the longer one, with some text between their
ends. -/
theorem exists_append_of_byteLength_lt (hx : x <+: source) (hy : y <+: source)
    (h : Text.byteLength x < Text.byteLength y) : ∃ between, between ≠ [] ∧ x ++ between = y := by
  rcases List.prefix_or_prefix_of_prefix hx hy with ⟨between, rfl⟩ | ⟨between, rfl⟩
  · refine ⟨between, ?_, rfl⟩
    rintro rfl
    rw [List.append_nil] at h
    exact Nat.lt_irrefl _ h
  · rw [Text.byteLength_append] at h
    omega

theorem eq_of_byteLength_eq (hx : x <+: source) (hy : y <+: source)
    (h : Text.byteLength x = Text.byteLength y) : x = y := by
  have hnil : ∀ {head between : List Char},
      Text.byteLength (head ++ between) = Text.byteLength head → between = [] := by
    intro head between hbytes
    have hchars := Text.length_le_byteLength between
    rw [Text.byteLength_append] at hbytes
    exact List.eq_nil_of_length_eq_zero (by omega)
  rcases List.prefix_or_prefix_of_prefix hx hy with ⟨between, rfl⟩ | ⟨between, rfl⟩
  · rw [hnil h.symm, List.append_nil]
  · rw [hnil h, List.append_nil]

theorem precedes_of_byteLength_lt (hx : x <+: source) (hy : y <+: source)
    (h : Text.byteLength x < Text.byteLength y) : Precedes x y := by
  obtain ⟨between, hbetween, rfl⟩ := exists_append_of_byteLength_lt hx hy h
  exact precedes_append x hbetween

theorem precedes_iff_byteLength_lt (hx : x <+: source) (hy : y <+: source) :
    Precedes x y ↔ Text.byteLength x < Text.byteLength y := by
  refine ⟨fun h => ?_, precedes_of_byteLength_lt hx hy⟩
  rcases Nat.lt_trichotomy (Text.byteLength x) (Text.byteLength y) with hlt | heq | hgt
  · exact hlt
  · rw [eq_of_byteLength_eq hx hy heq] at h
    exact absurd h h.asymm
  · exact absurd h (precedes_of_byteLength_lt hy hx hgt).asymm

/-- The order of positions looks at the offset first, which two places of a text do not
share. -/
theorem cmp_eq_lt_iff_byteLength_lt (hx : x <+: source) (hy : y <+: source) (p : Position) :
    (p.advanceBy x).cmp (p.advanceBy y) = .lt ↔ Text.byteLength x < Text.byteLength y := by
  rw [cmp, Ordering.then_eq_lt, Nat.compare_eq_lt, Nat.compare_eq_eq, offset_advanceBy,
    offset_advanceBy]
  constructor
  · rintro (hlt | ⟨heq, hlt⟩)
    · omega
    · rw [eq_of_byteLength_eq hx hy (by omega)] at hlt
      simp at hlt
  · intro hlt
    exact .inl (by omega)

theorem eq_of_lineOf_columnOf_eq (hx : x <+: source) (hy : y <+: source)
    (hline : lineOf x = lineOf y) (hcolumn : columnOf x = columnOf y) : x = y := by
  have hxy : ¬ Precedes x y := by
    unfold Precedes
    omega
  have hyx : ¬ Precedes y x := by
    unfold Precedes
    omega
  rw [precedes_iff_byteLength_lt hx hy] at hxy
  rw [precedes_iff_byteLength_lt hy hx] at hyx
  exact eq_of_byteLength_eq hx hy (by omega)

end

theorem endOf_append (a b : String) : endOf (a ++ b) = (endOf a).advanceBy b.toList := by
  rw [endOf, endOf, String.toList_append, advanceBy_append]

theorem offset_endOf (text : String) : (endOf text).offset = Text.byteLength text.toList := by
  rw [endOf, offset_advanceBy]
  exact Nat.zero_add _

theorem endOf_eq_behind (text : String) : endOf text = behind text := by
  rw [endOf, advanceBy_start, String.ofList_toList]

theorem toNat_line_endOf {text : String} (h : Fits text.toList) :
    (endOf text).line.toNat = lineOf text.toList := by
  rw [endOf_eq_behind, h.toNat_line]

theorem toNat_column_endOf {text : String} (h : Fits text.toList) :
    (endOf text).column.toNat = columnOf text.toList := by
  rw [endOf_eq_behind, h.toNat_column]

end Position

namespace Span

open Position

/-- The span of the text `b` behind the text `a`. -/
def between (a b : String) : Span := ⟨endOf a, endOf (a ++ b)⟩

theorem stop_offset_between (a b : String) :
    (between a b).stop.offset = (between a b).start.offset + b.utf8ByteSize := by
  rw [between, endOf_append, offset_advanceBy, Text.utf8ByteSize_eq_byteLength]

theorem slice?_between (a b c : String) : (between a b).slice? (a ++ b ++ c) = some b := by
  rw [slice?, between, endOf_append, offset_advanceBy, offset_endOf, String.toList_append,
    String.toList_append, Text.sliceBytes?_append, Option.map_some, String.ofList_toList]

theorem byteLength_between (a b : String) : (between a b).byteLength = b.utf8ByteSize := by
  rw [byteLength, stop_offset_between, Nat.add_sub_cancel_left]

theorem isEmpty_between_iff (a b : String) : (between a b).isEmpty = true ↔ b = "" := by
  rw [isEmpty, beq_iff_eq, stop_offset_between, ← String.utf8ByteSize_eq_zero_iff]
  omega

end Span

open Position PhpTokens.Span in
/-- A text that is read in parts ends where it ends as a whole. The span of a part gives back that
part. And of two heads of one text the shorter ends earlier, whether places are compared by their
bytes first or, in a text with fewer lines and columns than 32 bits count, by line and column
alone. -/
theorem positions_order_and_slice :
    (∀ a b : String, (endOf a).advanceBy b.toList = endOf (a ++ b)) ∧
    (∀ a b c : String, (between a b).start.offset ≤ (between a b).stop.offset ∧
      (between a b).slice? (a ++ b ++ c) = some b ∧
      (between a b).byteLength = b.utf8ByteSize ∧
      ((between a b).isEmpty = true ↔ b = "")) ∧
    (∀ source x y : String, x.toList <+: source.toList → y.toList <+: source.toList →
      ((endOf x).cmp (endOf y) = .lt ↔ x.utf8ByteSize < y.utf8ByteSize) ∧
      (Fits source.toList →
        (x.utf8ByteSize < y.utf8ByteSize ↔
          (endOf x).line < (endOf y).line ∨
            (endOf x).line = (endOf y).line ∧ (endOf x).column < (endOf y).column) ∧
        ((endOf x).line = (endOf y).line → (endOf x).column = (endOf y).column →
          (endOf x).offset = (endOf y).offset ∧ x = y))) := by
  refine ⟨fun a b => (endOf_append a b).symm, ?_, ?_⟩
  · intro a b c
    have hstop := stop_offset_between a b
    exact ⟨by omega, slice?_between a b c, byteLength_between a b, isEmpty_between_iff a b⟩
  · intro source x y hx hy
    rw [Text.utf8ByteSize_eq_byteLength x, Text.utf8ByteSize_eq_byteLength y]
    refine ⟨cmp_eq_lt_iff_byteLength_lt hx hy start, fun hfits => ?_⟩
    have hfitx := hfits.of_head hx
    have hfity := hfits.of_head hy
    simp only [UInt32.lt_iff_toNat_lt, ← UInt32.toNat_inj, toNat_line_endOf hfitx,
      toNat_line_endOf hfity, toNat_column_endOf hfitx, toNat_column_endOf hfity]
    refine ⟨(precedes_iff_byteLength_lt hx hy).symm, fun hline hcolumn => ?_⟩
    have heq := String.toList_inj.1 (eq_of_lineOf_columnOf_eq hx hy hline hcolumn)
    exact ⟨congrArg (fun text => (endOf text).offset) heq, heq⟩

open Position in
/-- Over an empty line the column goes back and the place goes on. -/
theorem positions_order_and_slice_emptyLine :
    ("ab\nü".toList <+: "ab\nü\n\nx".toList ∧ "ab\nü\n\n".toList <+: "ab\nü\n\nx".toList) ∧
      Fits "ab\nü\n\nx".toList ∧ (endOf "ab\nü").cmp (endOf "ab\nü\n\n") = .lt ∧
      ((endOf "ab\nü").line < (endOf "ab\nü\n\n").line ∨
        (endOf "ab\nü").line = (endOf "ab\nü\n\n").line ∧
          (endOf "ab\nü").column < (endOf "ab\nü\n\n").column) ∧
      endOf "ab\nü" = ⟨5, 2, 2⟩ ∧ endOf "ab\nü\n\n" = ⟨7, 4, 1⟩ := by
  have hx : "ab\nü".toList <+: "ab\nü\n\nx".toList := by decide
  have hy : "ab\nü\n\n".toList <+: "ab\nü\n\nx".toList := by decide
  have hfits : Fits "ab\nü\n\nx".toList := .of_length_lt (by decide)
  have hshorter : "ab\nü".utf8ByteSize < "ab\nü\n\n".utf8ByteSize := by decide
  obtain ⟨hlt, hreading⟩ := positions_order_and_slice.2.2 _ _ _ hx hy
  exact ⟨⟨hx, hy⟩, hfits, hlt.2 hshorter, (hreading hfits).1.1 hshorter, by decide, by decide⟩

end PhpTokens
