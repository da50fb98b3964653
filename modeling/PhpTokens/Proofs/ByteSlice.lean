import PhpTokens.Text.Bytes
import PhpTokens.Text.Offset

/-!
# Cuts at byte offsets

An offset into the UTF-8 form of a text is one of its character boundaries just
if some head of the text has that many bytes. `splitBytes?` answers at exactly
those offsets and with that head (`splitBytes?_eq_some_iff`), and they are the
valid positions of the text as a string (`isValid_iff_exists_append`). So to
show that a cut at an offset is safe is to show the head that it cuts off.
-/

namespace PhpTokens.Text

theorem utf8Size_eq_one {c : Char} (h : c.toNat < 128) : c.utf8Size = 1 := by
  rw [Char.utf8Size_eq_one_iff, UInt32.le_iff_toNat_le]
  exact Nat.le_of_lt_succ h

theorem byteLength_concat (cs : List Char) (c : Char) :
    byteLength (cs ++ [c]) = byteLength cs + c.utf8Size := by
  rw [byteLength_append, byteLength_cons, byteLength_nil, Nat.add_zero]

theorem length_le_byteLength (cs : List Char) : cs.length ≤ byteLength cs := by
  induction cs with
  | nil => exact Nat.le_refl 0
  | cons c cs ih =>
      have hpos := c.utf8Size_pos
      rw [List.length_cons, byteLength_cons]
      omega

theorem splitBytesFrom?_append (front xs ys : List Char) :
    splitBytesFrom? front (byteLength xs) (xs ++ ys) = some (front.reverse ++ xs, ys) := by
  induction xs generalizing front with
  | nil => cases ys <;> simp [splitBytesFrom?]
  | cons c xs ih =>
      have hpos := c.utf8Size_pos
      rw [byteLength_cons, List.cons_append, splitBytesFrom?, if_neg (by omega),
        if_pos (Nat.le_add_right _ _), Nat.add_sub_cancel_left, ih]
      simp

theorem exists_of_splitBytesFrom? {front cs x y : List Char} {n : Nat}
    (h : splitBytesFrom? front n cs = some (x, y)) :
    ∃ t, x = front.reverse ++ t ∧ cs = t ++ y ∧ n = byteLength t := by
  induction cs generalizing front n with
  | nil =>
      rw [splitBytesFrom?] at h
      split at h
      · next hn =>
          cases h
          exact ⟨[], by simp, rfl, hn⟩
      · cases h
  | cons c cs ih =>
      rw [splitBytesFrom?] at h
      split at h
      · next hn =>
          cases h
          exact ⟨[], by simp, rfl, hn⟩
      · split at h
        · next hsize =>
            obtain ⟨t, rfl, rfl, hn⟩ := ih h
            refine ⟨c :: t, by simp, rfl, ?_⟩
            rw [byteLength_cons]
            omega
        · cases h

/-- A split exists just at the boundary behind some head of the text, and it is the
split into that head and what is left. -/
theorem splitBytes?_eq_some_iff {n : Nat} {cs x y : List Char} :
    splitBytes? n cs = some (x, y) ↔ cs = x ++ y ∧ n = byteLength x := by
  constructor
  · intro h
    obtain ⟨t, rfl, hcs, hn⟩ := exists_of_splitBytesFrom? h
    exact ⟨hcs, hn⟩
  · rintro ⟨rfl, rfl⟩
    exact splitBytesFrom?_append [] x y

@[simp] theorem splitBytes?_append (xs ys : List Char) :
    splitBytes? (byteLength xs) (xs ++ ys) = some (xs, ys) :=
  splitBytes?_eq_some_iff.2 ⟨rfl, rfl⟩

theorem sliceBytes?_append (xs ys zs : List Char) :
    sliceBytes? (byteLength xs) (byteLength xs + byteLength ys) (xs ++ ys ++ zs) = some ys := by
  have hle : byteLength xs ≤ byteLength xs + byteLength ys := Nat.le_add_right _ _
  have hguard : (guard (byteLength xs ≤ byteLength xs + byteLength ys) : Option Unit) = some () :=
    if_pos hle
  rw [sliceBytes?, hguard, Nat.add_sub_cancel_left, List.append_assoc, splitBytes?_append]
  show ((splitBytes? (byteLength ys) (ys ++ zs)).bind fun split => some split.1) = some ys
  rw [splitBytes?_append, Option.bind_some]

/-- Byte offset of the first rest of a text that satisfies a condition. -/
def byteOffsetOf? (p : List Char → Bool) (cs : List Char) : Option Nat :=
  (offsetOf? p cs).map fun k => byteLength (cs.take k)

theorem offsetFrom?_eq_map (p : List Char → Bool) (n : Nat) (cs : List Char) :
    offsetFrom? p n cs = (offsetOf? p cs).map (n + ·) := by
  rw [offsetOf?]
  induction cs generalizing n with
  | nil =>
      rw [offsetFrom?, offsetFrom?]
      split <;> rfl
  | cons c cs ih =>
      rw [offsetFrom?, offsetFrom?]
      split
      · rfl
      · rw [ih, ih 1, Option.map_map]
        refine congrArg (Option.map · _) (funext fun k => ?_)
        rw [Function.comp_apply, Nat.add_assoc]

theorem byteOffsetOf?_head_append {c : Char} {xs : List Char} (h : c ∉ xs) (ys : List Char) :
    byteOffsetOf? (·.head? = some c) (xs ++ c :: ys) = some (byteLength xs) := by
  have hoffset : offsetOf? (·.head? = some c) (xs ++ c :: ys) = some xs.length := by
    refine offsetOf?_eq_some_iff.2 ⟨by simp, by simp, ?_⟩
    intro m hm
    rw [List.drop_append_of_le_length (Nat.le_of_lt hm), List.drop_eq_getElem_cons hm,
      decide_eq_false_iff_not]
    intro hhead
    exact h (Option.some.inj hhead ▸ List.getElem_mem hm)
  rw [byteOffsetOf?, hoffset, Option.map_some, List.take_left]

theorem byteOffsetOf?_head_eq_none {c : Char} {cs : List Char} (h : c ∉ cs) :
    byteOffsetOf? (·.head? = some c) cs = none := by
  refine Option.map_eq_none_iff.2 (Option.eq_none_iff_forall_ne_some.2 fun k hk => ?_)
  obtain ⟨-, hhead, -⟩ := offsetOf?_eq_some_iff.1 hk
  exact h (List.mem_of_mem_drop (List.mem_of_head? (of_decide_eq_true hhead)))

/-- The valid positions of a string are the ends of its heads. -/
theorem isValid_iff_exists_append {source : String} {n : Nat} :
    (⟨n⟩ : String.Pos.Raw).IsValid source ↔
      ∃ x y, source.toList = x ++ y ∧ n = byteLength x := by
  rw [String.Pos.Raw.isValid_iff_exists_append]
  constructor
  · rintro ⟨x, y, rfl, hn⟩
    refine ⟨x.toList, y.toList, String.toList_append, ?_⟩
    rw [byteLength_eq_utf8ByteSize, String.ofList_toList]
    exact congrArg String.Pos.Raw.byteIdx hn
  · rintro ⟨x, y, hsource, rfl⟩
    refine ⟨String.ofList x, String.ofList y, ?_, ?_⟩
    · rw [← String.ofList_append, ← hsource, String.ofList_toList]
    · rw [byteLength_eq_utf8ByteSize]
      rfl

end PhpTokens.Text
