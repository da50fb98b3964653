import PhpTokens.Proofs.ByteExtent

/-!
# Operators and numbers measured over bytes

The symbols of operators and the characters of numbers are ASCII, so their
extents count bytes and characters alike. What needs an argument is that a byte
of another character is never taken for one of theirs. An operator is looked up
by a head of so many bytes, and there is no such head inside a character. Digits
are read byte by byte, and every byte of a character outside ASCII has its high
bit set.
-/

namespace PhpTokens.Lexer

/-! ## Operators -/

/-- The longest operator at the head of a text, with its number of bytes. -/
def operatorBytes? (text : List Char) : Option (Operator × Nat) :=
  Operator.lengths.findSome? fun n =>
    ((Text.splitBytes? n text).bind fun parts => Operator.ofSymbol? (String.ofList parts.1)).map
      (·, n)

theorem toNat_lt_of_isSymbol {t : List Char} (h : Operator.IsSymbol t) :
    ∀ c ∈ t, c.toNat < 128 := by
  have hall : t.all (fun c => decide (c.toNat < 128)) = true :=
    Operator.of_isSymbol (p := fun t => t.all fun c => decide (c.toNat < 128)) h (by decide)
  exact fun c hc => of_decide_eq_true (List.all_eq_true.1 hall c hc)

theorem byteLength_of_isSymbol {t : List Char} (h : Operator.IsSymbol t) :
    Text.byteLength t = t.length :=
  Text.byteLength_eq_length (toNat_lt_of_isSymbol h)

/-- The symbols of operators are ASCII, so a head of so many bytes is one of so many
characters where it is a symbol. -/
theorem splitBytes?_bind_ofSymbol? (n : Nat) (cs : List Char) :
    ((Text.splitBytes? n cs).bind fun parts => Operator.ofSymbol? (String.ofList parts.1)) =
      Operator.ofHead? n cs := by
  refine Option.ext fun o => ?_
  rw [Operator.ofHead?_eq_some_iff, Option.bind_eq_some_iff]
  refine ⟨?_, ?_⟩
  · rintro ⟨⟨t, rest⟩, hsplit, ho⟩
    obtain ⟨rfl, rfl⟩ := Text.splitBytes?_eq_some_iff.1 hsplit
    have hsize := byteLength_of_isSymbol ⟨o, ho⟩
    exact ⟨t, List.prefix_append t rest, hsize.symm, ho⟩
  · rintro ⟨t, ⟨rest, rfl⟩, rfl, ho⟩
    have hsize := byteLength_of_isSymbol ⟨o, ho⟩
    exact ⟨(t, rest), Text.splitBytes?_eq_some_iff.2 ⟨rfl, hsize.symm⟩, ho⟩

theorem operatorBytes?_eq (cs : List Char) : operatorBytes? cs = Operator.leading? cs := by
  simp only [operatorBytes?, splitBytes?_bind_ofSymbol?, Operator.leading?]

/-! ## Numbers -/

/-- The bytes of a text, each seen as a character of its own. -/
def byteChars (cs : List Char) : List Char :=
  (cs.flatMap String.utf8EncodeChar).map Char.ofUInt8

/-- Number of bytes of the run of digits at the head of a text. It is read byte by byte. -/
def digitsBytes (isDigit : Char → Bool) (text : List Char) : Nat :=
  digitsFrom isDigit 0 (byteChars text)

/-- Number of bytes of the integer with an announced base at the head of a text. -/
def basedBytes? (text : List Char) : Except Halt (Option Nat) :=
  match text with
  | '0' :: c :: _ =>
      match baseDigits? c with
      | none => .ok none
      | some isDigit => do
          let digits ← sliceFrom text 2
          let n := digitsBytes isDigit digits
          return if 0 < n then some (2 + n) else none
  | _ => .ok none

/-- Whether a point behind `whole` bytes of digits belongs to the number. -/
def pointBelongs (text : List Char) (whole : Nat) : Except Halt Bool :=
  if 0 < whole then .ok true
  else do
    let after ← sliceFrom text 1
    return after.head?.any Char.isDigit

/-- Number of bytes of the fraction behind `whole` bytes of digits, point included. -/
def fractionBytes (text : List Char) (whole : Nat) : Except Halt Nat := do
  let rest ← sliceFrom text whole
  if rest.head? = some '.' then
    let pointed ← pointBelongs text whole
    if pointed then
      let digits ← sliceFrom text (whole + 1)
      return 1 + digitsBytes Char.isDigit digits
    else return 0
  else return 0

/-- Number of bytes of the sign at the head of a text. -/
def signLength (cs : List Char) : Nat := if cs.head? = some '+' ∨ cs.head? = some '-' then 1 else 0

/-- Number of bytes of the exponent behind `mantissa` bytes. -/
def exponentBytes (text : List Char) (mantissa : Nat) : Except Halt Nat := do
  let rest ← sliceFrom text mantissa
  if rest.head? = some 'e' ∨ rest.head? = some 'E' then
    let after ← sliceFrom rest 1
    let sign := signLength after
    let digits ← sliceFrom after sign
    if digits.head?.any Char.isDigit then return 1 + sign + digitsBytes Char.isDigit digits
    else return 0
  else return 0

/-- Type and number of bytes of the number at the head of a text. -/
def numberBytes (text : List Char) : Except Halt (TokenType × Nat) := do
  match ← basedBytes? text with
  | some n => return (.integerLiteral, n)
  | none =>
      let whole := digitsBytes Char.isDigit text
      let fraction ← fractionBytes text whole
      let exponent ← exponentBytes text (whole + fraction)
      let type := if fraction = 0 ∧ exponent = 0 then TokenType.integerLiteral else .floatLiteral
      return (type, whole + fraction + exponent)

theorem toNat_ofUInt8 (b : UInt8) : (Char.ofUInt8 b).toNat = b.toNat := UInt8.toNat_toUInt32 b

theorem byteChars_cons_of_ascii {c : Char} (h : c.toNat < 128) (cs : List Char) :
    byteChars (c :: cs) = c :: byteChars cs := by
  have hencode : (String.utf8EncodeChar c).map Char.ofUInt8 = [c] := by
    have hval : c.val.toNat ≤ 127 := Nat.le_of_lt_succ h
    simp only [String.utf8EncodeChar, hval, if_true, List.map_cons, List.map_nil]
    refine congrArg (fun d => [d]) (Char.toNat_inj.1 ?_)
    rw [toNat_ofUInt8, UInt8.toNat_ofNat']
    exact Nat.mod_eq_of_lt (Nat.lt_of_le_of_lt hval (by decide))
  rw [byteChars, List.flatMap_cons, List.map_append, hencode]
  rfl

/-- Every byte of a character outside ASCII has its high bit set; here the first. -/
theorem exists_byteChars_cons {c : Char} (h : 128 ≤ c.toNat) (cs : List Char) :
    ∃ b bs, byteChars (c :: cs) = b :: bs ∧ 128 ≤ b.toNat := by
  have hval : ¬ c.val.toNat ≤ 127 := Nat.not_le_of_lt h
  rw [byteChars, List.flatMap_cons, List.map_append]
  simp only [String.utf8EncodeChar, hval, if_false]
  split
  · refine ⟨_, _, rfl, ?_⟩
    rw [toNat_ofUInt8, UInt8.toNat_ofNat']
    omega
  · split
    · refine ⟨_, _, rfl, ?_⟩
      rw [toNat_ofUInt8, UInt8.toNat_ofNat']
      omega
    · refine ⟨_, _, rfl, ?_⟩
      rw [toNat_ofUInt8, UInt8.toNat_ofNat']
      omega

section

variable {isDigit : Char → Bool} (hascii : ∀ c, isDigit c = true → c.toNat < 128)

include hascii

theorem not_digit_of_le {c : Char} (hc : 128 ≤ c.toNat) : isDigit c = false ∧ c ≠ '_' := by
  refine ⟨Bool.eq_false_iff.2 fun hdigit => ?_, ?_⟩
  · exact absurd (hascii c hdigit) (Nat.not_lt_of_le hc)
  · rintro rfl
    exact absurd hc (by decide)

theorem digitsFrom_of_le {c : Char} (hc : 128 ≤ c.toNat) (n : Nat) (cs : List Char) :
    digitsFrom isDigit n (c :: cs) = n := by
  obtain ⟨hdigit, hunderscore⟩ := not_digit_of_le hascii hc
  rw [digitsFrom, if_neg]
  rintro (h | ⟨h, -⟩)
  · exact Bool.false_ne_true (hdigit.symm.trans h)
  · exact hunderscore h

theorem any_head?_byteChars (cs : List Char) :
    (byteChars cs).head?.any isDigit = cs.head?.any isDigit := by
  cases cs with
  | nil => rfl
  | cons c cs =>
      rcases Nat.lt_or_ge c.toNat 128 with hc | hc
      · rw [byteChars_cons_of_ascii hc]
        rfl
      · obtain ⟨b, bs, hbytes, hb⟩ := exists_byteChars_cons hc cs
        rw [hbytes]
        exact (not_digit_of_le hascii hb).1.trans (not_digit_of_le hascii hc).1.symm

/-- A run of digits has as many bytes as characters, and no byte of another character looks
like a digit. -/
theorem digitsFrom_byteChars (n : Nat) (cs : List Char) :
    digitsFrom isDigit n (byteChars cs) = digitsFrom isDigit n cs := by
  induction cs generalizing n with
  | nil => rfl
  | cons c cs ih =>
      rcases Nat.lt_or_ge c.toNat 128 with hc | hc
      · rw [byteChars_cons_of_ascii hc, digitsFrom, digitsFrom, any_head?_byteChars hascii, ih]
      · obtain ⟨b, bs, hbytes, hb⟩ := exists_byteChars_cons hc cs
        rw [hbytes, digitsFrom_of_le hascii hb, digitsFrom_of_le hascii hc]

theorem digitsBytes_eq (cs : List Char) : digitsBytes isDigit cs = digitsLength isDigit cs :=
  digitsFrom_byteChars hascii 0 cs

theorem byteLength_of_digits {ds : List Char} (h : ds = [] ∨ IsDigits isDigit ds) :
    Text.byteLength ds = ds.length := by
  refine Text.byteLength_eq_length fun c hc => ?_
  rcases h with rfl | hds
  · cases hc
  · rcases hds.mem c hc with hdigit | rfl
    · exact hascii c hdigit
    · decide

end

theorem isDigit_toNat_lt (c : Char) (h : c.isDigit = true) : c.toNat < 128 := by
  have hrange := isDigit_iff.1 h
  omega

theorem toNat_lt_of_baseDigits? {c : Char} {isDigit : Char → Bool}
    (h : baseDigits? c = some isDigit) (d : Char) (hd : isDigit d = true) : d.toNat < 128 := by
  have hrange := isHexDigit_iff.1 (isHexDigit_of_baseDigits? h hd)
  omega

theorem digitsLength_pos_iff {isDigit : Char → Bool} {cs : List Char} :
    0 < digitsLength isDigit cs ↔ cs.head?.any isDigit = true := by
  cases hhead : cs.head?.any isDigit with
  | false => simp [digitsLength_eq_zero hhead]
  | true =>
      cases cs with
      | nil => cases hhead
      | cons c cs => exact iff_of_true (digitsLength_pos hhead) rfl

theorem sliceFrom_length {xs : List Char} (h : Text.byteLength xs = xs.length) (ys : List Char) :
    sliceFrom (xs ++ ys) xs.length = .ok ys := by
  rw [← h, sliceFrom_append]

theorem utf8Size_of_baseDigits? {c : Char} {isDigit : Char → Bool}
    (h : baseDigits? c = some isDigit) : c.utf8Size = 1 := by
  unfold baseDigits? at h
  split at h
  · next hc => rcases hc with rfl | rfl <;> rfl
  · split at h
    · next hc => rcases hc with rfl | rfl <;> rfl
    · split at h
      · next hc => rcases hc with rfl | rfl <;> rfl
      · cases h

theorem basedBytes?_eq (cs : List Char) : basedBytes? cs = .ok (basedLength? cs) := by
  by_cases hzero : ∃ c rest, cs = '0' :: c :: rest
  · obtain ⟨c, rest, rfl⟩ := hzero
    rw [basedBytes?, basedLength?]
    cases hbase : baseDigits? c with
    | none => rfl
    | some isDigit =>
        have hsize : Text.byteLength ['0', c] = 2 := by
          rw [Text.byteLength_cons, Text.byteLength_cons, utf8Size_of_baseDigits? hbase]
          rfl
        have hslice : sliceFrom ('0' :: c :: rest) 2 = .ok rest :=
          hsize ▸ sliceFrom_append ['0', c] rest
        simp only [hslice, ok_bind, digitsBytes_eq (toNat_lt_of_baseDigits? hbase)]
        rfl
  · have hbytes : basedBytes? cs = .ok none := by
      unfold basedBytes?
      split
      · next c rest => exact absurd ⟨c, rest, rfl⟩ hzero
      · rfl
    have hnone : basedLength? cs = none := by
      unfold basedLength?
      split
      · next c rest => exact absurd ⟨c, rest, rfl⟩ hzero
      · rfl
    rw [hbytes, hnone]

theorem pointBelongs_eq (ds after : List Char) :
    pointBelongs (ds ++ '.' :: after) ds.length =
      .ok (decide (0 < ds.length) || decide (0 < digitsLength Char.isDigit after)) := by
  cases ds with
  | nil =>
      have hslice : sliceFrom ('.' :: after) 1 = .ok after := sliceFrom_append ['.'] after
      have hdigits : decide (0 < digitsLength Char.isDigit after) =
          after.head?.any Char.isDigit := by
        rw [Bool.eq_iff_iff, decide_eq_true_iff, digitsLength_pos_iff]
      rw [pointBelongs, List.nil_append, hslice, hdigits]
      rfl
  | cons d ds => simp [pointBelongs]

theorem fractionLength_of_ne {cs : List Char} (h : cs.head? ≠ some '.') (afterDigits : Bool) :
    fractionLength afterDigits cs = 0 := by
  unfold fractionLength
  split
  · exact absurd rfl h
  · rfl

theorem fractionBytes_append {ds : List Char} (hds : Text.byteLength ds = ds.length)
    (rest : List Char) :
    fractionBytes (ds ++ rest) ds.length = .ok (fractionLength (0 < ds.length) rest) := by
  rw [fractionBytes, sliceFrom_length hds, ok_bind]
  split
  · next hpoint =>
      obtain ⟨after, rfl⟩ := List.head?_eq_some_iff.1 hpoint
      have hafter : sliceFrom (ds ++ '.' :: after) (ds.length + 1) = .ok after := by
        have hsize : Text.byteLength (ds ++ ['.']) = (ds ++ ['.']).length := by
          rw [Text.byteLength_concat, hds, List.length_append]
          rfl
        have hslice := sliceFrom_length hsize after
        rwa [← List.append_cons, List.length_append] at hslice
      rw [pointBelongs_eq, ok_bind, fractionLength, hafter, ok_bind,
        digitsBytes_eq isDigit_toNat_lt, pure_eq_ok, pure_eq_ok, apply_ite Except.ok]
  · next hpoint => rw [fractionLength_of_ne hpoint, pure_eq_ok]

/-- The digits of an exponent begin behind its sign. -/
theorem exists_signParts (after : List Char) :
    ∃ sign digits, after = sign ++ digits ∧ Text.byteLength sign = sign.length ∧
      signLength after = sign.length ∧
      signedLength after =
        if 0 < digitsLength Char.isDigit digits then
          sign.length + digitsLength Char.isDigit digits
        else 0 := by
  cases after with
  | nil => exact ⟨[], [], rfl, rfl, rfl, rfl⟩
  | cons c after =>
      have hhead : ((c :: after).head? = some '+' ∨ (c :: after).head? = some '-') ↔
          c = '+' ∨ c = '-' := by simp
      by_cases hc : c = '+' ∨ c = '-'
      · refine ⟨[c], after, rfl, ?_, if_pos (hhead.2 hc), signedLength_cons hc after⟩
        rcases hc with rfl | rfl <;> rfl
      · refine ⟨[], c :: after, rfl, rfl, if_neg (mt hhead.1 hc), ?_⟩
        rw [signedLength_of_unsigned hc, List.length_nil, Nat.zero_add]
        split
        · rfl
        · next hzero => exact Nat.eq_zero_of_not_pos hzero

theorem exponentBytes_append {m : List Char} (hm : Text.byteLength m = m.length)
    (rest : List Char) : exponentBytes (m ++ rest) m.length = .ok (exponentLength rest) := by
  rw [exponentBytes, sliceFrom_length hm, ok_bind]
  cases rest with
  | nil => rfl
  | cons c after =>
      have hhead : ((c :: after).head? = some 'e' ∨ (c :: after).head? = some 'E') ↔
          c = 'e' ∨ c = 'E' := by simp
      by_cases hc : c = 'e' ∨ c = 'E'
      · have hslice : sliceFrom (c :: after) 1 = .ok after := by
          rcases hc with rfl | rfl
          · exact sliceFrom_append ['e'] after
          · exact sliceFrom_append ['E'] after
        obtain ⟨sign, digits, rfl, hsize, hsign, hlength⟩ := exists_signParts after
        rw [if_pos (hhead.2 hc), hslice, ok_bind, exponentLength_cons hc, hlength]
        change (sliceFrom _ (signLength (sign ++ digits)) >>= _) = _
        rw [hsign, sliceFrom_length hsize, ok_bind, digitsBytes_eq isDigit_toNat_lt]
        by_cases hdigits : 0 < digitsLength Char.isDigit digits
        · rw [if_pos (digitsLength_pos_iff.1 hdigits), if_pos hdigits, if_pos (by omega),
            Nat.add_assoc, pure_eq_ok]
        · rw [if_neg (mt digitsLength_pos_iff.2 hdigits), if_neg hdigits,
            if_neg (Nat.lt_irrefl 0), pure_eq_ok]
      · rw [if_neg (mt hhead.1 hc), exponentLength_eq_zero hc, pure_eq_ok]

theorem decimalNumber_append {ds t rest : List Char}
    (hds : digitsLength Char.isDigit (ds ++ (t ++ rest)) = ds.length)
    (ht : fractionLength (decide (0 < ds.length)) (t ++ rest) = t.length) :
    decimalNumber (ds ++ (t ++ rest)) =
      (if t.length = 0 ∧ exponentLength rest = 0 then .integerLiteral else .floatLiteral,
        ds.length + t.length + exponentLength rest) := by
  have hexponent : (ds ++ (t ++ rest)).drop (ds.length + t.length) = rest := by
    rw [← List.append_assoc, ← List.length_append, List.drop_left]
  simp only [decimalNumber, hds, List.drop_left, ht, hexponent]

theorem numberBytes_eq (cs : List Char) : numberBytes cs = .ok (number cs) := by
  rw [numberBytes, basedBytes?_eq, ok_bind, number]
  cases basedLength? cs with
  | some n => rfl
  | none =>
      obtain ⟨ds, rest, rfl, hds, hdigits⟩ := digitsLength_spec Char.isDigit cs
      obtain ⟨t, rest, rfl, ht, hfraction⟩ := fractionLength_spec (decide (0 < ds.length)) rest
      have hsize : Text.byteLength ds = ds.length := byteLength_of_digits isDigit_toNat_lt hdigits
      have htsize : Text.byteLength t = t.length := by
        rcases hfraction with rfl | ⟨ds', rfl, hds'⟩
        · rfl
        · have hsize' : Text.byteLength ds' = ds'.length :=
            byteLength_of_digits isDigit_toNat_lt (hds'.imp_left And.left)
          rw [Text.byteLength_cons, hsize', List.length_cons, Nat.add_comm]
          rfl
      have hmantissa : Text.byteLength (ds ++ t) = (ds ++ t).length := by
        rw [Text.byteLength_append, hsize, htsize, List.length_append]
      have hexponent := exponentBytes_append hmantissa rest
      rw [List.append_assoc, List.length_append] at hexponent
      simp only [digitsBytes_eq isDigit_toNat_lt, hds, fractionBytes_append hsize, ok_bind, ht,
        hexponent, decimalNumber_append hds ht]
      rfl

end PhpTokens.Lexer
