import PhpTokens.Record.Json

/-!
# Lines of JSON can be told apart

Plain data is written without blanks and without lengths, so what separates its
parts are marks: quotes around texts, colons, commas and brackets. A text may
hold all of them. What keeps it apart from the marks around it is the escape: a
quote inside a text never stands alone, and from every escaped character the
character can be read back (`unescape?_escapeChar`). So a text gives up its end
(`writeText_append_inj`), and then so do fields, lists and records. A number is
the exception. It ends where its digits end, hence at a mark, and that has to be
known of what follows it (`EndsNumber`).

Data are compared as they are written, one beside the other: equal characters
are read off both, part by part, and each part turns out to be the same. The
first character already says what kind of datum it is (`shapeAt?`). Only a scalar
that is no whole number is lost, for it is written as null; data without one are
`Whole`.
-/

namespace PhpTokens

/-- Data without a scalar that has no written form. -/
inductive Datum.Whole : Datum → Prop where
  | null : Whole .null
  | bool (b : Bool) : Whole (.bool b)
  | int (n : Int) : Whole (.int n)
  | text (s : String) : Whole (.text s)
  | list {items : List Datum} (h : ∀ d ∈ items, Whole d) : Whole (.list items)
  | record {fields : List (String × Datum)} (h : ∀ f ∈ fields, Whole f.2) : Whole (.record fields)

namespace Json

/-! ## Texts -/

/-- The value of a hexadecimal digit. -/
def hexValue (c : Char) : Nat := ['0', '1', '2', '3', '4', '5', '6', '7', '8', '9', 'a', 'b', 'c',
  'd', 'e', 'f'].idxOf c

/-- The character that a letter behind a backslash stands for. -/
def meant (c : Char) : Char :=
  if c = 'b' then '\x08' else if c = 'f' then '\x0c' else if c = 'n' then '\n'
  else if c = 'r' then '\r' else if c = 't' then '\t' else c

/-- The character that an escape gives, read behind its backslash, and the rest. -/
def escaped? : List Char → Option (Char × List Char)
  | [] => none
  | c :: rest =>
      if c = 'u' then
        match rest with
        | _ :: _ :: a :: b :: rest => some (Char.ofNat (16 * hexValue a + hexValue b), rest)
        | _ => none
      else some (meant c, rest)

/-- The first character of an escaped text, and the rest. The quote that ends the text is no
character of it. -/
def unescape? : List Char → Option (Char × List Char)
  | [] => none
  | c :: rest =>
      if c = '"' then none else if c = '\\' then escaped? rest else some (c, rest)

theorem hexValue_digitChar {n : Nat} (h : n < 16) : hexValue (Nat.digitChar n) = n := by
  have hall : ∀ k : Fin 16, hexValue (Nat.digitChar k) = k := by decide
  exact hall ⟨n, h⟩

theorem unescape?_escapeChar (c : Char) (rest : List Char) :
    unescape? (escapeChar c ++ rest) = some (c, rest) := by
  unfold escapeChar
  split
  iterate 7 · rfl
  · next hquote hbackslash _ _ _ _ _ =>
      split
      · next hcontrol =>
          have hhigh := hexValue_digitChar (n := c.toNat / 16) (by omega)
          have hlow := hexValue_digitChar (n := c.toNat % 16) (by omega)
          have hvalue : 16 * (c.toNat / 16) + c.toNat % 16 = c.toNat := by omega
          show some (Char.ofNat (16 * hexValue _ + hexValue _), rest) = some (c, rest)
          rw [hhigh, hlow, hvalue, Char.ofNat_toNat]
      · rw [List.singleton_append, unescape?, if_neg hquote, if_neg hbackslash]

theorem unescape?_flatMap_cons (c : Char) (cs rest : List Char) :
    unescape? ((c :: cs).flatMap escapeChar ++ rest) =
      some (c, cs.flatMap escapeChar ++ rest) := by
  rw [List.flatMap_cons, List.append_assoc, unescape?_escapeChar]

/-- Escaped texts are compared up to the quote that ends them, and what follows is left. -/
theorem flatMap_escapeChar_append_inj {xs ys r r' : List Char}
    (h : xs.flatMap escapeChar ++ '"' :: r = ys.flatMap escapeChar ++ '"' :: r') :
    xs = ys ∧ r = r' := by
  induction xs generalizing ys with
  | nil =>
      cases ys with
      | nil => exact ⟨rfl, (List.cons.inj h).2⟩
      | cons d ys =>
          have hread := congrArg unescape? h
          rw [unescape?_flatMap_cons] at hread
          cases hread
  | cons c xs ih =>
      have hread := congrArg unescape? h
      rw [unescape?_flatMap_cons] at hread
      cases ys with
      | nil => cases hread
      | cons d ys =>
          rw [unescape?_flatMap_cons] at hread
          obtain ⟨rfl, hrest⟩ := Prod.mk.inj (Option.some.inj hread)
          obtain ⟨rfl, htail⟩ := ih hrest
          exact ⟨rfl, htail⟩

theorem writeText_append_inj {s t : String} {r r' : List Char}
    (h : writeText s ++ r = writeText t ++ r') : s = t ∧ r = r' := by
  simp only [writeText, List.cons_append, List.append_assoc, List.nil_append,
    List.cons.injEq, true_and] at h
  obtain ⟨htext, hrest⟩ := flatMap_escapeChar_append_inj h
  exact ⟨String.toList_inj.1 htext, hrest⟩

/-! ## Numbers -/

/-- What may follow a number: the end of the line, or anything but another digit. -/
def EndsNumber (r : List Char) : Prop := r.head?.all (fun c => !c.isDigit) = true

theorem isDigit_of_mem_toDigits {n : Nat} {c : Char} (hc : c ∈ Nat.toDigits 10 n) :
    c.isDigit = true :=
  Nat.isDigit_of_mem_toDigits (by decide) (by decide) hc

theorem exists_toDigits_eq_cons (n : Nat) :
    ∃ c cs, Nat.toDigits 10 n = c :: cs ∧ c.isDigit = true := by
  obtain ⟨c, cs, hdigits⟩ := List.exists_cons_of_ne_nil (Nat.toDigits_ne_nil (n := n) (b := 10))
  exact ⟨c, cs, hdigits, isDigit_of_mem_toDigits (hdigits ▸ List.mem_cons_self)⟩

theorem takeWhile_toDigits_append (n : Nat) {r : List Char} (hr : EndsNumber r) :
    (Nat.toDigits 10 n ++ r).takeWhile Char.isDigit = Nat.toDigits 10 n := by
  have hrest : r.takeWhile Char.isDigit = [] := by
    cases r with
    | nil => rfl
    | cons c r => rw [List.takeWhile_cons, if_neg (by simpa [EndsNumber] using hr)]
  rw [List.takeWhile_append_of_pos fun c hc => isDigit_of_mem_toDigits hc, hrest,
    List.append_nil]

theorem toDigits_append_inj {m n : Nat} {r r' : List Char} (hr : EndsNumber r)
    (hr' : EndsNumber r') (h : Nat.toDigits 10 m ++ r = Nat.toDigits 10 n ++ r') :
    m = n ∧ r = r' := by
  have hdigits := congrArg (List.takeWhile Char.isDigit) h
  rw [takeWhile_toDigits_append m hr, takeWhile_toDigits_append n hr'] at hdigits
  refine ⟨?_, List.append_cancel_left (hdigits ▸ h)⟩
  have hvalue := congrArg (Nat.ofDigitChars 10 · 0) hdigits
  rwa [Nat.ofDigitChars_ten_toDigits, Nat.ofDigitChars_ten_toDigits] at hvalue

theorem toList_toString_int (n : Int) :
    (toString n).toList = if 0 ≤ n then Nat.toDigits 10 n.toNat
      else '-' :: Nat.toDigits 10 (-n).toNat := by
  have hrepr : toString n = n.repr := rfl
  rw [hrepr, Int.repr_eq_if]
  split
  · rw [Nat.repr_eq_ofList_toDigits, String.toList_ofList]
  · rw [String.toList_append, Nat.repr_eq_ofList_toDigits,
      String.toList_ofList (l := Nat.toDigits _ _)]
    rfl

/-- A number begins with a sign or a digit. -/
theorem exists_toString_int_eq_cons (n : Int) :
    ∃ c cs, (toString n).toList = c :: cs ∧ (c = '-' ∨ c.isDigit = true) := by
  rw [toList_toString_int]
  split
  · obtain ⟨c, cs, hdigits, hc⟩ := exists_toDigits_eq_cons n.toNat
    exact ⟨c, cs, hdigits, .inr hc⟩
  · exact ⟨_, _, rfl, .inl rfl⟩

/-! ## Lists and records -/

/-- Written forms with commas between them. -/
def joined {α : Type} (f : α → List Char) : List α → List Char
  | [] => []
  | [x] => f x
  | x :: y :: xs => f x ++ ',' :: joined f (y :: xs)

/-- The written form of a field. -/
def writeField (f : String × Datum) : List Char := writeText f.1 ++ ':' :: write f.2

theorem writeItems_eq_joined (items : List Datum) : writeItems items = joined write items := by
  induction items with
  | nil => rw [writeItems, joined]
  | cons d items ih =>
      cases items with
      | nil => rw [writeItems, joined]
      | cons e items => rw [writeItems, joined, ih]

theorem writeFields_eq_joined (fields : List (String × Datum)) :
    writeFields fields = joined writeField fields := by
  induction fields with
  | nil => rw [writeFields, joined]
  | cons f fields ih =>
      cases fields with
      | nil => rw [writeFields, joined, writeField]
      | cons g fields => rw [writeFields, joined, writeField, ih]

section

variable {α : Type} {f : α → List Char} {close : Char}

/-- What follows the first of some parts up to the bracket that closes them, and behind
it. -/
def behindFirst (f : α → List Char) (close : Char) (xs : List α) (r : List Char) : List Char :=
  if xs.isEmpty then close :: r else ',' :: (joined f xs ++ close :: r)

theorem joined_cons_append (x : α) (xs : List α) (r : List Char) :
    joined f (x :: xs) ++ close :: r = f x ++ behindFirst f close xs r := by
  cases xs with
  | nil => rfl
  | cons y xs =>
      rw [joined, List.append_assoc]
      rfl

theorem endsNumber_behindFirst (hclose : close.isDigit = false) (xs : List α) (r : List Char) :
    EndsNumber (behindFirst f close xs r) := by
  unfold behindFirst
  split
  · simp [EndsNumber, hclose]
  · rfl

/-- Joined parts are told apart if each part is, and if none begins with the closing
bracket. -/
theorem joined_append_inj (hclose : close.isDigit = false) (hcomma : close ≠ ',')
    (hbegin : ∀ x r r', f x ++ r ≠ close :: r') {xs ys : List α} {r r' : List Char}
    (hpart : ∀ x ∈ xs, ∀ y ∈ ys, ∀ r r', EndsNumber r → EndsNumber r' → f x ++ r = f y ++ r' →
      x = y ∧ r = r')
    (h : joined f xs ++ close :: r = joined f ys ++ close :: r') : xs = ys ∧ r = r' := by
  induction xs generalizing ys with
  | nil =>
      cases ys with
      | nil => exact ⟨rfl, (List.cons.inj h).2⟩
      | cons y ys =>
          rw [joined_cons_append] at h
          exact absurd h.symm (hbegin y _ _)
  | cons x xs ih =>
      cases ys with
      | nil =>
          rw [joined_cons_append] at h
          exact absurd h (hbegin x _ _)
      | cons y ys =>
          rw [joined_cons_append, joined_cons_append] at h
          obtain ⟨rfl, hbehind⟩ := hpart x List.mem_cons_self y List.mem_cons_self _ _
            (endsNumber_behindFirst hclose xs r) (endsNumber_behindFirst hclose ys r') h
          -- Either both lists end here or a comma follows in both.
          cases xs with
          | nil =>
              cases ys with
              | nil => exact ⟨rfl, (List.cons.inj hbehind).2⟩
              | cons y ys => exact absurd (List.cons.inj hbehind).1 hcomma
          | cons z xs =>
              cases ys with
              | nil => exact absurd (List.cons.inj hbehind).1.symm hcomma
              | cons y ys =>
                  obtain ⟨heq, hrest⟩ := ih
                    (fun x' hx' y' hy' => hpart x' (List.mem_cons_of_mem _ hx') y'
                      (List.mem_cons_of_mem _ hy')) (List.cons.inj hbehind).2
                  exact ⟨congrArg (x :: ·) heq, hrest⟩

end

/-! ## Data -/

/-- The kinds of written data. -/
inductive Shape where
  | null | bool | number | text | list | record

/-- The kind of a datum. -/
def shapeOf : Datum → Shape
  | .null | .scalar => .null
  | .bool _ => .bool
  | .int _ => .number
  | .text _ => .text
  | .list _ => .list
  | .record _ => .record

/-- The kind that a first character announces, if it can be one. -/
def shapeAt? (c : Char) : Option Shape :=
  if c = '-' ∨ c.isDigit then some .number
  else
    match c with
    | 'n' => some .null
    | 't' | 'f' => some .bool
    | '"' => some .text
    | '[' => some .list
    | '\x7b' => some .record
    | _ => none

theorem exists_write_eq_cons (d : Datum) :
    ∃ c cs, write d = c :: cs ∧ shapeAt? c = some (shapeOf d) := by
  cases d with
  | null => exact ⟨_, _, by rw [write]; rfl, rfl⟩
  | scalar => exact ⟨_, _, by rw [write]; rfl, rfl⟩
  | bool b => cases b <;> exact ⟨_, _, by rw [write]; rfl, rfl⟩
  | int n =>
      obtain ⟨c, cs, hwrite, hsign⟩ := exists_toString_int_eq_cons n
      exact ⟨c, cs, by rw [write, hwrite], if_pos hsign⟩
  | text s => exact ⟨_, _, by rw [write]; rfl, rfl⟩
  | list items => exact ⟨_, _, by rw [write]; rfl, rfl⟩
  | record fields => exact ⟨_, _, by rw [write]; rfl, rfl⟩

theorem shapeOf_eq {d e : Datum} {r r' : List Char} (h : write d ++ r = write e ++ r') :
    shapeOf d = shapeOf e := by
  obtain ⟨c, cs, hd, hshape⟩ := exists_write_eq_cons d
  obtain ⟨c', cs', he, hshape'⟩ := exists_write_eq_cons e
  rw [hd, he, List.cons_append, List.cons_append] at h
  rw [(List.cons.inj h).1, hshape'] at hshape
  exact (Option.some.inj hshape).symm

theorem write_append_ne (d : Datum) (r r' : List Char) : write d ++ r ≠ ']' :: r' := by
  obtain ⟨c, cs, hd, hshape⟩ := exists_write_eq_cons d
  rw [hd, List.cons_append]
  intro h
  rw [(List.cons.inj h).1] at hshape
  cases hshape

theorem writeField_append_ne (f : String × Datum) (r r' : List Char) :
    writeField f ++ r ≠ '\x7d' :: r' := by
  intro h
  cases (List.cons.inj h).1

theorem writeInt_append_inj {m n : Int} {r r' : List Char} (hr : EndsNumber r)
    (hr' : EndsNumber r') (h : write (.int m) ++ r = write (.int n) ++ r') :
    m = n ∧ r = r' := by
  have hdigit : ∀ {k : Nat} {t t' : List Char}, Nat.toDigits 10 k ++ t ≠ '-' :: t' := by
    intro k t t' heq
    obtain ⟨c, cs, hdigits, hc⟩ := exists_toDigits_eq_cons k
    rw [hdigits, List.cons_append] at heq
    rw [(List.cons.inj heq).1] at hc
    cases hc
  rw [write, write, toList_toString_int, toList_toString_int] at h
  split at h
  · next hm =>
      split at h
      · next hn =>
          obtain ⟨heq, hrest⟩ := toDigits_append_inj hr hr' h
          exact ⟨by omega, hrest⟩
      · exact absurd h hdigit
  · next hm =>
      split at h
      · exact absurd h.symm hdigit
      · next hn =>
          obtain ⟨heq, hrest⟩ := toDigits_append_inj hr hr' (List.cons.inj h).2
          exact ⟨by omega, hrest⟩

/-- A field is told apart by its name and then by its value. -/
theorem writeField_append_inj {f g : String × Datum} {r r' : List Char}
    (hvalue : write f.2 ++ r = write g.2 ++ r' → f.2 = g.2 ∧ r = r')
    (h : writeField f ++ r = writeField g ++ r') : f = g ∧ r = r' := by
  rw [writeField, writeField, List.append_assoc, List.append_assoc, List.cons_append,
    List.cons_append] at h
  obtain ⟨hname, hrest⟩ := writeText_append_inj h
  obtain ⟨heq, hrest⟩ := hvalue (List.cons.inj hrest).2
  exact ⟨Prod.ext hname heq, hrest⟩

/-- Of data with something written behind them, equal characters come from equal data, and the
same is left. -/
theorem write_append_inj {d e : Datum} (hd : d.Whole) (he : e.Whole) {r r' : List Char}
    (hr : EndsNumber r) (hr' : EndsNumber r') (h : write d ++ r = write e ++ r') :
    d = e ∧ r = r' := by
  -- The first characters agree, so of `e` only the case of the same kind is left.
  induction hd generalizing e r r' with
  | null =>
      cases he with
      | null => exact ⟨rfl, List.append_cancel_left h⟩
      | _ => cases shapeOf_eq h
  | bool b =>
      cases he with
      | bool b' =>
          cases b <;> cases b'
          · exact ⟨rfl, List.append_cancel_left h⟩
          · rw [write, write] at h
            cases (List.cons.inj h).1
          · rw [write, write] at h
            cases (List.cons.inj h).1
          · exact ⟨rfl, List.append_cancel_left h⟩
      | _ => cases shapeOf_eq h
  | int n =>
      cases he with
      | int n' =>
          obtain ⟨rfl, hrest⟩ := writeInt_append_inj hr hr' h
          exact ⟨rfl, hrest⟩
      | _ => cases shapeOf_eq h
  | text s =>
      cases he with
      | text s' =>
          rw [write, write] at h
          obtain ⟨rfl, hrest⟩ := writeText_append_inj h
          exact ⟨rfl, hrest⟩
      | _ => cases shapeOf_eq h
  | list _ ih =>
      cases he with
      | list hitems =>
          rw [write, write, writeItems_eq_joined, writeItems_eq_joined, List.append_assoc,
            List.append_assoc] at h
          obtain ⟨rfl, hrest⟩ := joined_append_inj rfl (by decide) write_append_ne
            (fun d hd e he _ _ hr hr' h => ih d hd (hitems e he) hr hr' h) (List.cons.inj h).2
          exact ⟨rfl, hrest⟩
      | _ => cases shapeOf_eq h
  | record _ ih =>
      cases he with
      | record hfields =>
          rw [write, write, writeFields_eq_joined, writeFields_eq_joined, List.append_assoc,
            List.append_assoc] at h
          obtain ⟨rfl, hrest⟩ := joined_append_inj rfl (by decide) writeField_append_ne
            (fun f hf g hg _ _ hr hr' h => writeField_append_inj (ih f hf (hfields g hg) hr hr') h)
            (List.cons.inj h).2
          exact ⟨rfl, hrest⟩
      | _ => cases shapeOf_eq h

theorem line_injective {d e : Datum} (hd : d.Whole) (he : e.Whole) (h : line d = line e) :
    d = e := by
  have hwrite : write d ++ [] = write e ++ [] := by
    rw [List.append_nil, List.append_nil, String.ofList_injective h]
  have hend : EndsNumber [] := rfl
  exact (write_append_inj hd he hend hend hwrite).1

/-! ## One line -/

/-- Whether a character is none of the first thirty-two, which all control something. -/
def isPrintable (c : Char) : Bool := 32 ≤ c.toNat

theorem isPrintable_of_isDigit {c : Char} (h : c.isDigit = true) : isPrintable c = true := by
  have hrange := Char.isDigit_iff_toNat.1 h
  have hzero : '0'.toNat = 48 := rfl
  exact decide_eq_true (by omega)

theorem all_isPrintable_escapeChar (c : Char) : (escapeChar c).all isPrintable = true := by
  have hhex : ∀ {n : Nat}, n < 16 → isPrintable (Nat.digitChar n) = true := by
    intro n hn
    have hall : ∀ k : Fin 16, isPrintable (Nat.digitChar k) = true := by decide
    exact hall ⟨n, hn⟩
  unfold escapeChar
  split
  iterate 7 · rfl
  · split
    · next hcontrol =>
        have hhigh := hhex (n := c.toNat / 16) (by omega)
        have hlow := hhex (n := c.toNat % 16) (by omega)
        simp only [List.all_cons, List.all_nil, hhigh, hlow]
        rfl
    · next hprintable => simpa [isPrintable] using hprintable

theorem all_isPrintable_writeText (s : String) : (writeText s).all isPrintable = true := by
  have hquote : isPrintable '"' = true := rfl
  simp [writeText, hquote, List.all_flatMap, all_isPrintable_escapeChar]

theorem all_isPrintable_writeField {f : String × Datum} (h : (write f.2).all isPrintable = true) :
    (writeField f).all isPrintable = true := by
  rw [writeField, List.all_append, List.all_cons, all_isPrintable_writeText, h]
  rfl

theorem all_isPrintable_joined {α : Type} {f : α → List Char} {xs : List α}
    (h : ∀ x ∈ xs, (f x).all isPrintable = true) : (joined f xs).all isPrintable = true := by
  have hcomma : isPrintable ',' = true := rfl
  induction xs with
  | nil => rfl
  | cons x xs ih =>
      have hx := h x List.mem_cons_self
      have hxs := ih fun y hy => h y (List.mem_cons_of_mem x hy)
      cases xs with
      | nil => exact hx
      | cons y xs => rw [joined, List.all_append, List.all_cons, hx, hcomma, hxs]; rfl

/-- However data are nested and whatever their texts hold, they are written on one line. -/
theorem all_isPrintable_write {d : Datum} (h : d.Whole) : (write d).all isPrintable = true := by
  induction h with
  | null => rfl
  | bool b => cases b <;> rfl
  | int n =>
      have hdigits : ∀ k, (Nat.toDigits 10 k).all isPrintable = true := fun k =>
        List.all_eq_true.2 fun c hc => isPrintable_of_isDigit (isDigit_of_mem_toDigits hc)
      rw [write, toList_toString_int]
      split
      · exact hdigits _
      · rw [List.all_cons, hdigits]
        rfl
  | text s =>
      rw [write]
      exact all_isPrintable_writeText s
  | list _ ih =>
      rw [write, writeItems_eq_joined, List.cons_append, List.all_cons, List.all_append,
        all_isPrintable_joined ih]
      rfl
  | record _ ih =>
      rw [write, writeFields_eq_joined, List.cons_append, List.all_cons, List.all_append,
        all_isPrintable_joined fun f hf => all_isPrintable_writeField (ih f hf)]
      rfl

end Json

end PhpTokens
