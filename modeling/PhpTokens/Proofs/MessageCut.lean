import PhpTokens.Log.Event
import PhpTokens.Proofs.ByteSlice

/-!
# The cut of a long message

The message of an event is cut to a number of bytes, and never inside a
character. There are two ways to find the place. One reads the message from its
beginning, as long as the next character still fits (`Text.takeBytes`). The
other goes to the byte where the room ends and from there back, byte by byte, to
the first boundary between characters (`Text.boundaryBefore?`), which it tells
by the byte behind it: one that continues a character stands inside it.

In the bytes of a text both find the same place (`boundaryBefore?_utf8Bytes`). A
character has one byte that begins it, and then only bytes that continue it, at
most three. So a boundary told by the byte behind it is the end of some head of
the text (`isBoundary_utf8Bytes_iff`), the way back ends at zero at the latest,
and what is lost of the room is less than one character.
-/

namespace PhpTokens.Text

/-! ## Heads within a number of bytes -/

theorem takeBytes_prefix_self (n : Nat) (cs : List Char) : takeBytes n cs <+: cs := by
  induction cs generalizing n with
  | nil => exact List.prefix_rfl
  | cons c cs ih =>
      rw [takeBytes]
      split
      · exact List.cons_prefix_cons.2 ⟨rfl, ih _⟩
      · exact List.nil_prefix

theorem byteLength_takeBytes_le (n : Nat) (cs : List Char) :
    byteLength (takeBytes n cs) ≤ n := by
  induction cs generalizing n with
  | nil => exact Nat.zero_le n
  | cons c cs ih =>
      rw [takeBytes]
      split
      · next hfits =>
          have hrest := ih (n - c.utf8Size)
          rw [byteLength_cons]
          omega
      · exact Nat.zero_le n

/-- No head that fits is longer. -/
theorem prefix_takeBytes {head cs : List Char} (h : head <+: cs) {n : Nat}
    (hfits : byteLength head ≤ n) : head <+: takeBytes n cs := by
  induction cs generalizing head n with
  | nil => exact h
  | cons c cs ih =>
      cases head with
      | nil => exact List.nil_prefix
      | cons d head =>
          obtain ⟨rfl, hhead⟩ := List.cons_prefix_cons.1 h
          rw [byteLength_cons] at hfits
          rw [takeBytes, if_pos (by omega)]
          exact List.cons_prefix_cons.2 ⟨rfl, ih hhead (by omega)⟩

theorem takeBytes_eq_self_iff {n : Nat} {cs : List Char} :
    takeBytes n cs = cs ↔ byteLength cs ≤ n := by
  refine ⟨?_, ?_⟩
  · intro h
    rw [← h]
    exact byteLength_takeBytes_le n cs
  · intro h
    have hhead := prefix_takeBytes List.prefix_rfl h
    exact (takeBytes_prefix_self n cs).eq_of_length_le hhead.length_le

/-- What does not fit any more is a single character, of at most four bytes. -/
theorem le_byteLength_takeBytes {n : Nat} {cs : List Char} (h : n < byteLength cs) :
    n ≤ byteLength (takeBytes n cs) + 3 := by
  induction cs generalizing n with
  | nil => exact absurd h (Nat.not_lt_zero n)
  | cons c cs ih =>
      have hsize := c.utf8Size_le_four
      rw [byteLength_cons] at h
      rw [takeBytes]
      split
      · have hrest := ih (n := n - c.utf8Size) (by omega)
        rw [byteLength_cons]
        omega
      · omega

/-! ## Boundaries told by bytes -/

/-- The UTF-8 form of a text. -/
def utf8Bytes (cs : List Char) : List UInt8 := cs.flatMap String.utf8EncodeChar

/-- Whether a byte continues a character that an earlier byte begins. -/
def continues (b : UInt8) : Bool := 128 ≤ b.toNat && b.toNat < 192

/-- Whether an offset falls between characters: no byte stands before it, or none behind it,
or the one behind it continues nothing. -/
def isBoundary (bytes : List UInt8) (n : Nat) : Bool :=
  match bytes[n]? with
  | some b => n == 0 || !continues b
  | none => n == bytes.length

/-- The last boundary up to an offset, searched for from there back. There is none if the
search would have to go back from zero. -/
def boundaryBefore? (bytes : List UInt8) : Nat → Option Nat
  | 0 => if isBoundary bytes 0 then some 0 else none
  | n + 1 => if isBoundary bytes (n + 1) then some (n + 1) else boundaryBefore? bytes n

theorem boundaryBefore?_eq_some {bytes : List UInt8} {k n : Nat} (hk : k ≤ n)
    (hboundary : isBoundary bytes k = true)
    (hlast : ∀ m, k < m → m ≤ n → isBoundary bytes m = false) :
    boundaryBefore? bytes n = some k := by
  induction n with
  | zero =>
      obtain rfl : k = 0 := Nat.le_zero.1 hk
      rw [boundaryBefore?, if_pos hboundary]
  | succ n ih =>
      rw [boundaryBefore?]
      by_cases heq : k = n + 1
      · rw [← heq, if_pos hboundary]
      · rw [if_neg (Bool.eq_false_iff.1 (hlast (n + 1) (by omega) (Nat.le_refl _)))]
        exact ih (by omega) fun m hkm hmn => hlast m hkm (by omega)

theorem utf8Bytes_cons (c : Char) (cs : List Char) :
    utf8Bytes (c :: cs) = String.utf8EncodeChar c ++ utf8Bytes cs := List.flatMap_cons

theorem length_utf8Bytes (cs : List Char) : (utf8Bytes cs).length = byteLength cs := by
  induction cs with
  | nil => rfl
  | cons c cs ih =>
      rw [utf8Bytes_cons, List.length_append, String.length_utf8EncodeChar, ih, byteLength_cons]

theorem toUTF8_data_toList (s : String) : s.toUTF8.data.toList = utf8Bytes s.toList := by
  have hencode : s.toUTF8 = s.toList.utf8Encode := by
    rw [String.toUTF8_eq_toByteArray, ← String.toByteArray_ofList, String.ofList_toList]
  rw [hencode, List.utf8Encode, List.data_toByteArray]
  rfl

/-- The first byte of a character begins it, and the others continue it. -/
theorem exists_utf8EncodeChar_eq_cons (c : Char) :
    ∃ b bs, String.utf8EncodeChar c = b :: bs ∧ continues b = false ∧
      ∀ t ∈ bs, continues t = true := by
  have hcontinues : ∀ v : Nat, continues (UInt8.ofNat (v % 64 + 128)) = true := by
    intro v
    simp only [continues, UInt8.toNat_ofNat', Bool.and_eq_true, decide_eq_true_eq]
    omega
  have hbegins : ∀ v : Nat, 192 ≤ v → v < 256 → continues (UInt8.ofNat v) = false := by
    intro v hlow hhigh
    simp only [continues, UInt8.toNat_ofNat', Bool.and_eq_false_iff, decide_eq_false_iff_not]
    omega
  have hnil : ∀ t ∈ ([] : List UInt8), continues t = true := fun t ht => absurd ht List.not_mem_nil
  rw [String.utf8EncodeChar]
  split
  · refine ⟨_, _, rfl, ?_, hnil⟩
    simp only [continues, UInt8.toNat_ofNat', Bool.and_eq_false_iff, decide_eq_false_iff_not]
    omega
  · split
    · refine ⟨_, _, rfl, hbegins _ (by omega) (by omega), ?_⟩
      exact List.forall_mem_cons.2 ⟨hcontinues _, hnil⟩
    · split
      · refine ⟨_, _, rfl, hbegins _ (by omega) (by omega), ?_⟩
        exact List.forall_mem_cons.2 ⟨hcontinues _, List.forall_mem_cons.2 ⟨hcontinues _, hnil⟩⟩
      · refine ⟨_, _, rfl, hbegins _ (by omega) (by omega), ?_⟩
        exact List.forall_mem_cons.2 ⟨hcontinues _, List.forall_mem_cons.2 ⟨hcontinues _,
          List.forall_mem_cons.2 ⟨hcontinues _, hnil⟩⟩⟩

/-- The first byte of a text continues nothing. -/
theorem continues_of_utf8Bytes_zero {cs : List Char} {b : UInt8}
    (h : (utf8Bytes cs)[0]? = some b) : continues b = false := by
  cases cs with
  | nil => cases h
  | cons c cs =>
      obtain ⟨d, ds, hencode, hbegins, -⟩ := exists_utf8EncodeChar_eq_cons c
      rw [utf8Bytes_cons, hencode, List.cons_append, List.getElem?_cons_zero] at h
      rwa [← Option.some.inj h]

theorem isBoundary_zero (bytes : List UInt8) : isBoundary bytes 0 = true := by
  cases bytes <;> rfl

/-- Inside a character there is no boundary. -/
theorem isBoundary_inside {c : Char} {n : Nat} (hpos : 0 < n) (hn : n < c.utf8Size)
    (cs : List Char) : isBoundary (utf8Bytes (c :: cs)) n = false := by
  obtain ⟨b, bs, hencode, -, hcontinues⟩ := exists_utf8EncodeChar_eq_cons c
  have hlength : bs.length + 1 = c.utf8Size := by
    rw [← String.length_utf8EncodeChar c, hencode, List.length_cons]
  obtain ⟨m, rfl⟩ : ∃ m, n = m + 1 := ⟨n - 1, by omega⟩
  have hm : m < bs.length := by omega
  have hbyte : (utf8Bytes (c :: cs))[m + 1]? = some bs[m] := by
    rw [utf8Bytes_cons, hencode, List.cons_append, List.getElem?_cons_succ,
      List.getElem?_append_left hm, List.getElem?_eq_getElem hm]
  simp [isBoundary, hbyte, hcontinues bs[m] (List.getElem_mem hm)]

/-- Behind a character the boundaries are those of the rest. -/
theorem isBoundary_behind (c : Char) (cs : List Char) (m : Nat) :
    isBoundary (utf8Bytes (c :: cs)) (c.utf8Size + m) = isBoundary (utf8Bytes cs) m := by
  have hsize := c.utf8Size_pos
  have hbyte : (utf8Bytes (c :: cs))[c.utf8Size + m]? = (utf8Bytes cs)[m]? := by
    rw [utf8Bytes_cons, ← String.length_utf8EncodeChar c, List.getElem?_append_right (by omega),
      Nat.add_sub_cancel_left]
  rw [isBoundary, isBoundary, hbyte, length_utf8Bytes, length_utf8Bytes, byteLength_cons]
  cases hm : (utf8Bytes cs)[m]? with
  | none => exact Bool.eq_iff_iff.2 (by rw [beq_iff_eq, beq_iff_eq]; omega)
  | some b =>
      have hne : (c.utf8Size + m == 0) = false := beq_eq_false_iff_ne.2 (by omega)
      by_cases hzero : m = 0
      · subst hzero
        simp [continues_of_utf8Bytes_zero hm]
      · simp [hne, hzero]

/-- The boundaries told by bytes are the ends of the heads of the text. -/
theorem isBoundary_utf8Bytes_iff {cs : List Char} {n : Nat} :
    isBoundary (utf8Bytes cs) n = true ↔ ∃ head, head <+: cs ∧ byteLength head = n := by
  induction cs generalizing n with
  | nil =>
      have hzero : isBoundary (utf8Bytes []) n = (n == 0) := rfl
      rw [hzero, beq_iff_eq]
      refine ⟨?_, ?_⟩
      · rintro rfl
        exact ⟨[], List.nil_prefix, rfl⟩
      · rintro ⟨head, hhead, rfl⟩
        rw [List.prefix_nil.1 hhead]
        rfl
  | cons c cs ih =>
      refine ⟨?_, ?_⟩
      · intro h
        by_cases hpos : n = 0
        · exact ⟨[], List.nil_prefix, hpos.symm⟩
        · by_cases hn : n < c.utf8Size
          · rw [isBoundary_inside (Nat.pos_of_ne_zero hpos) hn] at h
            cases h
          · obtain ⟨m, rfl⟩ : ∃ m, n = c.utf8Size + m := ⟨n - c.utf8Size, by omega⟩
            rw [isBoundary_behind] at h
            obtain ⟨head, hhead, hm⟩ := ih.1 h
            refine ⟨c :: head, List.cons_prefix_cons.2 ⟨rfl, hhead⟩, ?_⟩
            rw [byteLength_cons, hm]
      · rintro ⟨head, hhead, rfl⟩
        cases head with
        | nil => exact isBoundary_zero _
        | cons d head =>
            obtain ⟨rfl, htail⟩ := List.cons_prefix_cons.1 hhead
            rw [byteLength_cons, isBoundary_behind]
            exact ih.2 ⟨head, htail, rfl⟩

/-- From any offset the search finds the end of the longest head that fits. -/
theorem boundaryBefore?_utf8Bytes (n : Nat) (cs : List Char) :
    boundaryBefore? (utf8Bytes cs) n = some (byteLength (takeBytes n cs)) := by
  refine boundaryBefore?_eq_some (byteLength_takeBytes_le n cs) ?_ ?_
  · exact isBoundary_utf8Bytes_iff.2 ⟨_, takeBytes_prefix_self n cs, rfl⟩
  · intro m hm hmn
    refine Bool.eq_false_iff.2 fun h => ?_
    obtain ⟨head, hhead, rfl⟩ := isBoundary_utf8Bytes_iff.1 h
    obtain ⟨rest, hrest⟩ := prefix_takeBytes hhead hmn
    rw [← hrest, byteLength_append] at hm
    omega

end PhpTokens.Text

namespace PhpTokens.Log.Event

/-- The ways to make an event of a message. -/
inductive Maker where
  | error (code : Code)
  | success (code : Code)
  | warning
  | info
  | debug
deriving DecidableEq, Repr

/-- The event that is made of a message. -/
def Maker.make [Limits] : Maker → String → Event
  | .error code, message => Event.error code message
  | .success code, message => Event.success code message
  | .warning, message => Event.warning message
  | .info, message => Event.info message
  | .debug, message => Event.debug message

theorem Maker.message_make [Limits] (maker : Maker) (message : String) :
    (maker.make message).message = cutMessage message := by
  cases maker <;> rfl

theorem toList_cutMessage [Limits] (message : String) :
    (cutMessage message).toList = Text.takeBytes Limits.messageBytes message.toList :=
  String.toList_ofList

theorem utf8ByteSize_cutMessage [Limits] (message : String) :
    (cutMessage message).utf8ByteSize =
      Text.byteLength (Text.takeBytes Limits.messageBytes message.toList) :=
  (Text.byteLength_eq_utf8ByteSize _).symm

/-- However an event is made, its message is the longest head of the given one that fits: all of
it just if all of it fits, and otherwise at most three bytes short of the room. The search back
from the end of the room finds where it ends. -/
theorem message_longestHead [Limits] (maker : Maker) (message : String) :
    ((maker.make message).message.toList <+: message.toList ∧
      (maker.make message).message.utf8ByteSize ≤ Limits.messageBytes ∧
      ∀ head : String, head.toList <+: message.toList →
        head.utf8ByteSize ≤ Limits.messageBytes →
          head.toList <+: (maker.make message).message.toList) ∧
    ((maker.make message).message = message ↔ message.utf8ByteSize ≤ Limits.messageBytes) ∧
    (Limits.messageBytes < message.utf8ByteSize →
      Limits.messageBytes - 3 ≤ (maker.make message).message.utf8ByteSize) ∧
    Text.boundaryBefore? message.toUTF8.data.toList Limits.messageBytes =
      some (maker.make message).message.utf8ByteSize := by
  rw [maker.message_make, toList_cutMessage, utf8ByteSize_cutMessage,
    Text.utf8ByteSize_eq_byteLength message]
  refine ⟨⟨Text.takeBytes_prefix_self _ _, Text.byteLength_takeBytes_le _ _, ?_⟩, ?_, ?_, ?_⟩
  · intro head hhead hfits
    rw [Text.utf8ByteSize_eq_byteLength] at hfits
    exact Text.prefix_takeBytes hhead hfits
  · rw [← String.toList_inj, toList_cutMessage]
    exact Text.takeBytes_eq_self_iff
  · intro hlong
    have hshort := Text.le_byteLength_takeBytes hlong
    omega
  · rw [Text.toUTF8_data_toList]
    exact Text.boundaryBefore?_utf8Bytes _ _

/-- A message whose last character has one byte more than there is room for. -/
theorem message_longestHead_fourBytes :
    Limits.messageBytes < (String.ofList (List.replicate 4093 'x' ++ ['😀'])).utf8ByteSize ∧
      Limits.messageBytes - 3 ≤ (Maker.info.make
        (String.ofList (List.replicate 4093 'x' ++ ['😀']))).message.utf8ByteSize := by
  have hascii : ∀ c ∈ List.replicate 4093 'x', c.toNat < 128 := by
    intro c hc
    rw [List.eq_of_mem_replicate hc]
    decide
  have hlong : Limits.messageBytes <
      (String.ofList (List.replicate 4093 'x' ++ ['😀'])).utf8ByteSize := by
    rw [← Text.byteLength_eq_utf8ByteSize, Text.byteLength_append,
      Text.byteLength_eq_length hascii, List.length_replicate]
    decide
  exact ⟨hlong, (message_longestHead .info _).2.2.1 hlong⟩

end PhpTokens.Log.Event
