/-!
# Lengths and cuts in UTF-8 bytes

Text is handled character by character, but limits, offsets and spans count
the bytes of its UTF-8 form. This module holds the measure and the three cuts
made with it: the longest head that fits a number of bytes, the exact split at
a byte offset, and the split of a whole text between two offsets. An exact
split exists only where the offset falls between two characters.
-/

namespace PhpTokens.Text

/-- Number of bytes of the UTF-8 form of a text. -/
def byteLength (cs : List Char) : Nat :=
  cs.foldl (fun n c => n + c.utf8Size) 0

theorem foldl_utf8Size_eq_add (cs : List Char) (n : Nat) :
    cs.foldl (fun n c => n + c.utf8Size) n = n + byteLength cs := by
  induction cs generalizing n with
  | nil => simp [byteLength]
  | cons c cs ih =>
      simp only [byteLength, List.foldl_cons]
      rw [ih, ih (0 + c.utf8Size)]
      omega

@[simp] theorem byteLength_nil : byteLength [] = 0 := rfl

@[simp] theorem byteLength_cons (c : Char) (cs : List Char) :
    byteLength (c :: cs) = c.utf8Size + byteLength cs := by
  rw [byteLength, List.foldl_cons, foldl_utf8Size_eq_add]
  omega

@[simp] theorem byteLength_append (xs ys : List Char) :
    byteLength (xs ++ ys) = byteLength xs + byteLength ys := by
  induction xs with
  | nil => simp
  | cons c xs ih => simp [ih, Nat.add_assoc]

theorem byteLength_eq_utf8ByteSize (cs : List Char) :
    byteLength cs = (String.ofList cs).utf8ByteSize := by
  induction cs with
  | nil => rfl
  | cons c cs ih =>
      have hcons : String.ofList (c :: cs) = String.singleton c ++ String.ofList cs := by
        rw [String.singleton_eq_ofList, ← String.ofList_append]
        rfl
      rw [byteLength_cons, ih, hcons, String.utf8ByteSize_append, String.utf8ByteSize_singleton]

theorem utf8ByteSize_eq_byteLength (s : String) : s.utf8ByteSize = byteLength s.toList := by
  rw [byteLength_eq_utf8ByteSize, String.ofList_toList]

/-- A text of ASCII has as many bytes as characters. -/
theorem byteLength_eq_length {cs : List Char} (h : ∀ c ∈ cs, c.toNat < 128) :
    byteLength cs = cs.length := by
  induction cs with
  | nil => rfl
  | cons c cs ih =>
      have hsize : c.utf8Size = 1 := by
        rw [Char.utf8Size_eq_one_iff, UInt32.le_iff_toNat_le]
        exact Nat.le_of_lt_succ (h c List.mem_cons_self)
      rw [byteLength_cons, hsize, ih fun d hd => h d (List.mem_cons_of_mem c hd),
        List.length_cons, Nat.add_comm]

/-- The longest head of a text that has at most `n` bytes. -/
def takeBytes (n : Nat) : List Char → List Char
  | [] => []
  | c :: cs => if c.utf8Size ≤ n then c :: takeBytes (n - c.utf8Size) cs else []

/-- Split after exactly `n` bytes, with `front` the reversed characters already
passed. -/
def splitBytesFrom? (front : List Char) (n : Nat) : List Char → Option (List Char × List Char)
  | [] => if n = 0 then some (front.reverse, []) else none
  | c :: cs =>
      if n = 0 then some (front.reverse, c :: cs)
      else if c.utf8Size ≤ n then splitBytesFrom? (c :: front) (n - c.utf8Size) cs
      else none

/-- Split after exactly `n` bytes. There is no such split past the end of the
text or inside a character. -/
def splitBytes? (n : Nat) (cs : List Char) : Option (List Char × List Char) :=
  splitBytesFrom? [] n cs

/-- The part of a text between two byte offsets in their order, where both fall
between characters. -/
def sliceBytes? (start stop : Nat) (cs : List Char) : Option (List Char) := do
  guard (start ≤ stop)
  let (_, after) ← splitBytes? start cs
  let (part, _) ← splitBytes? (stop - start) after
  return part

end PhpTokens.Text
