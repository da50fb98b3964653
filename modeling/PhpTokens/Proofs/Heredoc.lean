import PhpTokens.Lexer.Literal
import PhpTokens.Proofs.CharClass

/-!
# The shape of a heredoc

`heredocHeader?` measures a header piece by piece, each piece from where the
last one ended. `IsHeader` is the header seen as a whole: the mark, an
indentation, the label, perhaps in quotes, and a line break. The two agree
(`heredocHeader?_eq_some_iff`): no piece can run into the next one, because the
next one begins with a character outside its class.

The body runs through the first line that closes it (`heredocBodyFrom?_spec`).
What is used of the search for that line is how far it looks: never past the
line it is on (`closingLabel?_congr_line`), and at the end of the literal only
at the next character (`heredocBodyFrom?_congr`).
-/

namespace PhpTokens.Lexer

/-- A run of a class ends where a character outside it follows. -/
theorem takeWhile_append_stop {p : Char → Bool} {xs ys : List Char}
    (hxs : ∀ c ∈ xs, p c = true) (hys : ys.head?.any p = false) :
    (xs ++ ys).takeWhile p = xs := by
  rw [List.takeWhile_append_of_pos hxs]
  match ys with
  | [] => rw [List.takeWhile_nil, List.append_nil]
  | y :: ys =>
      have hy : p y = false := hys
      rw [List.takeWhile_cons, if_neg (by rw [hy]; simp), List.append_nil]

theorem drop_takeWhile_length (p : Char → Bool) (cs : List Char) :
    cs.drop (cs.takeWhile p).length = cs.dropWhile p := by
  induction cs with
  | nil => rfl
  | cons c cs ih =>
      rw [List.takeWhile_cons, List.dropWhile_cons]
      split
      · rw [List.length_cons, List.drop_succ_cons, ih]
      · rfl

/-- A word that may name something. -/
structure IsName (word : List Char) : Prop where
  head : word.head?.any isNameStart = true
  all : ∀ c ∈ word, isNameChar c = true

/-- `newline` is a line break, whole where `body` follows it. -/
inductive IsLineBreak : List Char → List Char → Prop where
  | pair (body : List Char) : IsLineBreak ['\r', '\n'] body
  | feed (body : List Char) : IsLineBreak ['\n'] body
  | carriage {body : List Char} (h : body.head? ≠ some '\n') : IsLineBreak ['\r'] body

/-- `header` opens a heredoc with a label, where `body` follows it. -/
inductive IsHeader (label : List Char) : List Char → List Char → Prop where
  | mk {indent quote newline body : List Char} (hindent : ∀ c ∈ indent, isIndent c = true)
      (hquote : quote = [] ∨ quote = ['\''] ∨ quote = ['"']) (hlabel : IsName label)
      (hnewline : IsLineBreak newline body) :
      IsHeader label ('<' :: '<' :: '<' :: (indent ++ (quote ++ (label ++ (quote ++ newline)))))
        body

theorem lineBreakLength_append {newline body : List Char} (h : IsLineBreak newline body) :
    lineBreakLength (newline ++ body) = newline.length := by
  cases h with
  | pair body => rfl
  | feed body => rfl
  | carriage h =>
      match body with
      | [] => rfl
      | c :: body =>
          have hc : c ≠ '\n' := by simpa using h
          simp [lineBreakLength, hc]

theorem exists_isLineBreak {cs : List Char} (h : 0 < lineBreakLength cs) :
    ∃ newline body, cs = newline ++ body ∧ IsLineBreak newline body := by
  unfold lineBreakLength at h
  split at h
  · next body => exact ⟨['\r', '\n'], body, rfl, .pair body⟩
  · next body hbody =>
      refine ⟨['\r'], body, rfl, .carriage ?_⟩
      intro hhead
      obtain ⟨rest, rfl⟩ := List.head?_eq_some_iff.1 hhead
      exact hbody rest rfl
  · next body => exact ⟨['\n'], body, rfl, .feed body⟩
  · cases h

theorem lineBreakLength_pos_iff {cs : List Char} :
    0 < lineBreakLength cs ↔ cs.head? = some '\r' ∨ cs.head? = some '\n' := by
  constructor
  · intro h
    obtain ⟨newline, body, rfl, hnewline⟩ := exists_isLineBreak h
    cases hnewline with
    | pair _ => exact .inl rfl
    | feed _ => exact .inr rfl
    | carriage _ => exact .inl rfl
  · intro h
    unfold lineBreakLength
    split
    · decide
    · decide
    · decide
    · next hcarriage hfeed =>
        rcases h with h | h
        · obtain ⟨body, rfl⟩ := List.head?_eq_some_iff.1 h
          exact absurd rfl (hcarriage body)
        · obtain ⟨body, rfl⟩ := List.head?_eq_some_iff.1 h
          exact absurd rfl (hfeed body)

theorem IsLineBreak.ne_nil {newline body : List Char} (h : IsLineBreak newline body) :
    newline ≠ [] := by
  cases h <;> simp

theorem IsLineBreak.head?_any {newline body : List Char} (h : IsLineBreak newline body) :
    (newline ++ body).head?.any isNameChar = false := by
  cases h <;> rfl

/-- Behind a label comes a quote or a line break, and neither goes on with it. -/
theorem IsLineBreak.head?_any_quote {quote newline body : List Char}
    (h : IsLineBreak newline body) (hquote : quote = [] ∨ quote = ['\''] ∨ quote = ['"']) :
    (quote ++ (newline ++ body)).head?.any isNameChar = false := by
  rcases hquote with rfl | rfl | rfl
  · exact h.head?_any
  · rfl
  · rfl

theorem labelQuote?_spec (cs : List Char) :
    ((labelQuote? cs).toList = [] ∨ (labelQuote? cs).toList = ['\''] ∨
        (labelQuote? cs).toList = ['"']) ∧
      ((labelQuote? cs).isSome = true → cs.head? = labelQuote? cs) := by
  unfold labelQuote?
  split <;> simp

theorem IsName.head?_any_isIndent {word : List Char} (h : IsName word) (cs : List Char) :
    (word ++ cs).head?.any isIndent = false := by
  match word, h.head with
  | c :: word, hc =>
      have hne : ∀ x, isNameStart x = false → c ≠ x := fun x hx => ne_of_class hc hx
      simp [isIndent, hne ' ' (by decide), hne '\t' (by decide)]

theorem IsName.labelQuote?_append {word : List Char} (h : IsName word) (cs : List Char) :
    labelQuote? (word ++ cs) = none := by
  match word, h.head with
  | c :: word, hc =>
      have hne : ∀ x, isNameStart x = false → c ≠ x := fun x hx => ne_of_class hc hx
      simp [labelQuote?, hne '\'' (by decide), hne '"' (by decide)]

/-- A text that begins with a quote, if one is asked for. -/
theorem eq_quote_append {quote? : Option Char} {cs : List Char}
    (h : quote?.isSome = true → cs.head? = quote?) :
    cs = quote?.toList ++ cs.drop (if quote?.isSome = true then 1 else 0) := by
  cases quote? with
  | none => rfl
  | some q =>
      obtain ⟨rest, rfl⟩ := List.head?_eq_some_iff.1 (h rfl)
      rfl

theorem isName_takeWhile {cs : List Char} (h : cs.head?.any isNameStart = true) :
    IsName (cs.takeWhile isNameChar) := by
  refine ⟨?_, List.all_eq_true.1 List.all_takeWhile⟩
  match cs, h with
  | c :: cs, hc =>
      have hstart : isNameStart c = true := hc
      rw [List.takeWhile_cons, if_pos (isNameChar_iff.2 (.inl hstart))]
      exact hstart

theorem isHeader_of_heredocHeader? {cs label : List Char} {n : Nat}
    (h : heredocHeader? cs = some (n, label)) :
    ∃ header body, cs = header ++ body ∧ n = header.length ∧ IsHeader label header body := by
  unfold heredocHeader? at h
  split at h
  · next after =>
      simp only [Option.ite_none_right_eq_some, Option.some.injEq, Prod.mk.injEq, runLength,
        drop_takeWhile_length] at h
      obtain ⟨⟨hstart, hclosed, hbreak⟩, rfl, rfl⟩ := h
      have hafter := (List.takeWhile_append_dropWhile (p := isIndent) (l := after)).symm
      have hindent : ∀ c ∈ after.takeWhile isIndent, isIndent c = true :=
        List.all_eq_true.1 List.all_takeWhile
      generalize after.takeWhile isIndent = indent at hafter hindent ⊢
      generalize after.dropWhile isIndent = opener at hafter hstart hclosed hbreak ⊢
      obtain ⟨hquote, hhead⟩ := labelQuote?_spec opener
      have hopener := eq_quote_append hhead
      generalize labelQuote? opener = quote? at hquote hopener hstart hclosed hbreak ⊢
      generalize hsize : (if quote?.isSome = true then 1 else 0) = size
        at hopener hstart hclosed hbreak ⊢
      generalize opener.drop size = labelled at hopener hstart hclosed hbreak ⊢
      have hname := isName_takeWhile hstart
      have hlabelled := (List.takeWhile_append_dropWhile (p := isNameChar) (l := labelled)).symm
      generalize labelled.takeWhile isNameChar = label at hname hlabelled ⊢
      generalize labelled.dropWhile isNameChar = rest at hlabelled hclosed hbreak ⊢
      have hrest : rest = quote?.toList ++ rest.drop size := by
        rw [← hsize]
        refine eq_quote_append ?_
        intro hsome
        simpa [hsome] using hclosed
      obtain ⟨newline, body, hbody, hnewline⟩ := exists_isLineBreak hbreak
      have hlength : quote?.toList.length = size := by
        rw [← hsize]
        cases quote? <;> rfl
      refine ⟨_, body, ?_, ?_, .mk hindent hquote hname hnewline⟩
      · rw [hafter, hopener, hlabelled, hrest, hbody]
        simp only [List.cons_append, List.append_assoc]
      · rw [hbody, lineBreakLength_append hnewline]
        simp only [List.length_cons, List.length_append, hlength]
        omega
  · cases h

theorem IsHeader.heredocHeader?_append {label header body : List Char}
    (hheader : IsHeader label header body) :
    heredocHeader? (header ++ body) = some (header.length, label) := by
  cases hheader with
  | @mk indent quote newline _ hindent hquote hlabel hnewline =>
      have hstop := hnewline.head?_any_quote hquote
      have hopener : (quote ++ (label ++ (quote ++ (newline ++ body)))).head?.any isIndent =
          false := by
        rcases hquote with rfl | rfl | rfl
        · exact hlabel.head?_any_isIndent _
        · rfl
        · rfl
      have hquote? : (labelQuote? (quote ++ (label ++ (quote ++ (newline ++ body))))) =
          quote.head? := by
        rcases hquote with rfl | rfl | rfl
        · exact hlabel.labelQuote?_append _
        · rfl
        · rfl
      have hsize : (if quote.head?.isSome = true then 1 else 0) = quote.length := by
        rcases hquote with rfl | rfl | rfl <;> rfl
      have hstart : (label ++ (quote ++ (newline ++ body))).head?.any isNameStart = true := by
        match label, hlabel.head with
        | c :: label, hc => exact hc
      have hclosed : if quote.head?.isSome = true then
          (quote ++ (newline ++ body)).head? = quote.head? else True := by
        rcases hquote with rfl | rfl | rfl <;> simp
      have hbreak : 0 < newline.length := List.length_pos_iff.2 hnewline.ne_nil
      simp only [List.cons_append, List.append_assoc, heredocHeader?, runLength,
        takeWhile_append_stop hindent hopener, List.drop_left, hquote?, hsize, hstart,
        takeWhile_append_stop hlabel.all hstop, lineBreakLength_append hnewline]
      rw [if_pos ⟨trivial, hclosed, hbreak⟩]
      simp only [List.length_cons, List.length_append, Option.some.injEq, Prod.mk.injEq, and_true]
      omega

/-- The header that is measured is the header as a whole. -/
theorem heredocHeader?_eq_some_iff {cs label : List Char} {n : Nat} :
    heredocHeader? cs = some (n, label) ↔
      ∃ header body, cs = header ++ body ∧ n = header.length ∧ IsHeader label header body := by
  refine ⟨isHeader_of_heredocHeader?, ?_⟩
  intro hshape
  obtain ⟨header, body, rfl, rfl, hheader⟩ := hshape
  exact hheader.heredocHeader?_append

/-- Of what follows it, a header sees one character. -/
theorem IsHeader.congr {label header body body' : List Char} (h : IsHeader label header body)
    (hhead : body'.head? = body.head?) : IsHeader label header body' := by
  cases h with
  | mk hindent hquote hlabel hnewline =>
      refine .mk hindent hquote hlabel ?_
      cases hnewline with
      | pair _ => exact .pair body'
      | feed _ => exact .feed body'
      | carriage hbody => exact .carriage (by rw [hhead]; exact hbody)

theorem IsHeader.isName {label header body : List Char} (h : IsHeader label header body) :
    IsName label := by
  cases h with
  | mk _ _ hlabel _ => exact hlabel

theorem IsHeader.mark_not_mem {label header body : List Char} (h : IsHeader label header body) :
    '?' ∉ header := by
  cases h with
  | mk hindent hquote hlabel hnewline =>
      intro hmem
      simp only [List.mem_cons, List.mem_append] at hmem
      rcases hmem with hc | hc | hc | hc | hc | hc | hc | hc
      · cases hc
      · cases hc
      · cases hc
      · exact absurd (hindent _ hc) (by decide)
      · rcases hquote with rfl | rfl | rfl <;> simp at hc
      · exact absurd (hlabel.all _ hc) (by decide)
      · rcases hquote with rfl | rfl | rfl <;> simp at hc
      · cases hnewline <;> simp at hc

/-! ## The closing label -/

theorem closingLabel?_eq_some_iff {label cs : List Char} {n : Nat} (hlabel : IsName label) :
    closingLabel? label cs = some n ↔
      ∃ indent rest, cs = indent ++ (label ++ rest) ∧ (∀ c ∈ indent, isIndent c = true) ∧
        rest.head?.any isNameChar = false ∧ n = indent.length + label.length := by
  constructor
  · intro h
    simp only [closingLabel?, runLength, drop_takeWhile_length, Option.ite_none_right_eq_some,
      Option.some.injEq, List.isPrefixOf_iff_prefix] at h
    obtain ⟨⟨⟨rest, hrest⟩, hstop⟩, rfl⟩ := h
    rw [← hrest, List.drop_left] at hstop
    refine ⟨cs.takeWhile isIndent, rest, ?_, List.all_eq_true.1 List.all_takeWhile, ?_, rfl⟩
    · rw [hrest, List.takeWhile_append_dropWhile]
    · simpa using hstop
  · intro hshape
    obtain ⟨indent, rest, rfl, hindent, hstop, rfl⟩ := hshape
    have hlabelPrefix : label.isPrefixOf (label ++ rest) = true :=
      List.isPrefixOf_iff_prefix.2 (List.prefix_append label rest)
    simp only [closingLabel?, runLength,
      takeWhile_append_stop hindent (hlabel.head?_any_isIndent rest), List.drop_left,
      hlabelPrefix, hstop]
    rfl

/-- Where a text goes on with a character, any head of it without that character ends
before it. -/
theorem exists_append_of_not_mem {c : Char} {xs rest u v : List Char}
    (h : u ++ c :: v = xs ++ rest) (hc : c ∉ xs) : ∃ w, u = xs ++ w ∧ rest = w ++ c :: v := by
  rcases List.append_eq_append_iff.1 h with ⟨w, hw, hv⟩ | ⟨w, hw, hv⟩
  · match w with
    | [] =>
        refine ⟨[], ?_, ?_⟩
        · rw [hw, List.append_nil, List.append_nil]
        · rw [List.nil_append] at hv
          exact hv.symm
    | d :: w =>
        cases hv
        rw [hw] at hc
        exact absurd (by simp) hc
  · exact ⟨w, hw, hv⟩

/-- A closing label is found before a character that neither an indentation nor a name
has, or not at all. -/
theorem closingLabel?_append_cons {label : List Char} (hlabel : IsName label) {c : Char}
    (hindent : isIndent c = false) (hname : isNameChar c = false) (u v : List Char) :
    closingLabel? label (u ++ c :: v) = closingLabel? label u := by
  refine Option.ext fun n => ?_
  rw [closingLabel?_eq_some_iff hlabel, closingLabel?_eq_some_iff hlabel]
  constructor
  · intro h
    obtain ⟨indent, rest, hcs, hall, hstop, rfl⟩ := h
    rw [← List.append_assoc] at hcs
    have hmem : c ∉ indent ++ label := by
      intro hmem
      rcases List.mem_append.1 hmem with hmem | hmem
      · exact ne_of_class (hall c hmem) hindent rfl
      · exact ne_of_class (hlabel.all c hmem) hname rfl
    obtain ⟨w, rfl, rfl⟩ := exists_append_of_not_mem hcs hmem
    refine ⟨indent, w, List.append_assoc _ _ _, hall, ?_, rfl⟩
    match w with
    | [] => rfl
    | _ :: _ => exact hstop
  · intro h
    obtain ⟨indent, rest, rfl, hall, hstop, rfl⟩ := h
    refine ⟨indent, rest ++ c :: v, by simp only [List.append_assoc], hall, ?_, rfl⟩
    match rest with
    | [] => exact hname
    | _ :: _ => exact hstop

/-- A closing label stays on its line. -/
theorem closingLabel?_congr_line {label : List Char} (hlabel : IsName label)
    (u v v' : List Char) :
    closingLabel? label (u ++ '\n' :: v) = closingLabel? label (u ++ '\n' :: v') := by
  rw [closingLabel?_append_cons hlabel (by decide) (by decide),
    closingLabel?_append_cons hlabel (by decide) (by decide)]

/-- A closing label that ends the text at hand sees one more character. -/
theorem closingLabel?_append {label b r r' : List Char} (hlabel : IsName label)
    (h : closingLabel? label (b ++ r) = some b.length)
    (hr : r'.head?.any isNameChar = r.head?.any isNameChar) :
    closingLabel? label (b ++ r') = some b.length := by
  obtain ⟨indent, rest, hcs, hindent, hstop, hn⟩ := (closingLabel?_eq_some_iff hlabel).1 h
  rw [← List.append_assoc] at hcs
  obtain ⟨rfl, rfl⟩ := List.append_inj hcs (by rw [List.length_append]; exact hn)
  refine (closingLabel?_eq_some_iff hlabel).2 ⟨indent, r', ?_, hindent, hr.trans hstop, hn⟩
  rw [List.append_assoc]

/-- A closing label begins with an indentation or with a name. -/
theorem closingLabel?_eq_none {label : List Char} (hlabel : IsName label) {c : Char}
    (hindent : isIndent c = false) (hname : isNameStart c = false) (cs : List Char) :
    closingLabel? label (c :: cs) = none := by
  refine Option.eq_none_iff_forall_ne_some.2 fun m hm => ?_
  obtain ⟨indent, rest, hcs, hall, -, -⟩ := (closingLabel?_eq_some_iff hlabel).1 hm
  cases indent with
  | cons d indent =>
      obtain ⟨rfl, -⟩ := List.cons.inj hcs
      exact ne_of_class (hall c List.mem_cons_self) hindent rfl
  | nil =>
      have hhead := hlabel.head
      cases label with
      | nil => cases hhead
      | cons d label =>
          obtain ⟨rfl, -⟩ := List.cons.inj hcs
          exact ne_of_class (p := isNameStart) hhead hname rfl

/-! ## The body -/

theorem heredocBodyFrom?_close {label cs : List Char} {m : Nat}
    (h : closingLabel? label cs = some m) (n : Nat) :
    heredocBodyFrom? label n true cs = some (n + m) := by
  cases cs <;> simp [heredocBodyFrom?, h]

theorem heredocBodyFrom?_skip {label cs : List Char} {c : Char} {before : Bool}
    (h : before = true → closingLabel? label (c :: cs) = none) (n : Nat) :
    heredocBodyFrom? label n before (c :: cs) = heredocBodyFrom? label (n + 1) (c == '\n') cs := by
  cases before with
  | false => rfl
  | true =>
      rw [heredocBodyFrom?, if_pos rfl, h rfl]

theorem heredocBodyFrom?_bounds {label : List Char} (hlabel : IsName label) {n k : Nat}
    {lineBegins : Bool} {cs : List Char}
    (h : heredocBodyFrom? label n lineBegins cs = some k) : n < k ∧ k ≤ n + cs.length := by
  have hclosing : ∀ {cs : List Char} {m : Nat}, closingLabel? label cs = some m →
      0 < m ∧ m ≤ cs.length := by
    intro cs m hm
    obtain ⟨indent, rest, rfl, -, -, rfl⟩ := (closingLabel?_eq_some_iff hlabel).1 hm
    have hpos : 0 < label.length := by
      match label, hlabel.head with
      | c :: label, _ => exact Nat.succ_pos _
    simp only [List.length_append]
    omega
  fun_induction heredocBodyFrom? label n lineBegins cs with
  | case1 n =>
      obtain ⟨m, hm, rfl⟩ := Option.map_eq_some_iff.1 h
      have := hclosing hm
      omega
  | case2 => cases h
  | case3 n lineBegins c cs m hm =>
      cases h
      split at hm
      · have := hclosing hm
        omega
      · cases hm
  | case4 n lineBegins c cs hm ih =>
      have := ih h
      simp only [List.length_cons]
      omega

/-- Where no line begins, the closing label comes after a line feed. -/
theorem exists_feed_of_heredocBodyFrom? {label : List Char} (hlabel : IsName label) {n k : Nat}
    {cs : List Char} (h : heredocBodyFrom? label n false cs = some k) :
    ∃ u v, cs = u ++ '\n' :: v ∧ n + u.length + 1 ≤ k := by
  induction cs generalizing n with
  | nil => cases h
  | cons c cs ih =>
      have hnext : heredocBodyFrom? label (n + 1) (c == '\n') cs = some k := h
      by_cases hc : c = '\n'
      · subst hc
        have := (heredocBodyFrom?_bounds hlabel hnext).1
        refine ⟨[], cs, rfl, ?_⟩
        rw [List.length_nil]
        omega
      · rw [beq_eq_false_iff_ne.2 hc] at hnext
        obtain ⟨u, v, rfl, hk⟩ := ih hnext
        refine ⟨c :: u, v, rfl, ?_⟩
        rw [List.length_cons]
        omega

/-- A body that ends with the text at hand sees one more character. -/
theorem heredocBodyFrom?_congr {label : List Char} (hlabel : IsName label) {n : Nat}
    {lineBegins : Bool} {b r r' : List Char}
    (h : heredocBodyFrom? label n lineBegins (b ++ r) = some (n + b.length))
    (hr : r'.head?.any isNameChar = r.head?.any isNameChar) :
    heredocBodyFrom? label n lineBegins (b ++ r') = some (n + b.length) := by
  induction b generalizing n lineBegins with
  | nil => exact absurd (heredocBodyFrom?_bounds hlabel h).1 (by simp)
  | cons c b ih =>
      simp only [List.cons_append, heredocBodyFrom?] at h ⊢
      have hlength : n + (c :: b).length = n + 1 + b.length := by
        rw [List.length_cons]
        omega
      rw [hlength] at h ⊢
      cases lineBegins with
      | false => exact ih h
      | true =>
          simp only [if_true] at h ⊢
          cases hclosing : closingLabel? label (c :: (b ++ r)) with
          | some k =>
              rw [hclosing] at h
              have hk : n + k = n + 1 + b.length := Option.some.inj h
              have hb : closingLabel? label ((c :: b) ++ r) = some (c :: b).length := by
                rw [List.cons_append, hclosing, List.length_cons]
                exact congrArg some (by omega)
              have hb' := closingLabel?_append hlabel hb hr
              rw [List.cons_append] at hb'
              rw [hb']
              exact congrArg some hlength
          | none =>
              rw [hclosing] at h
              -- The literal goes on, so this line ends inside it.
              obtain ⟨u, v, huv⟩ : ∃ u v, c :: b = u ++ '\n' :: v := by
                by_cases hc : c = '\n'
                · exact ⟨[], b, by rw [hc]; rfl⟩
                · rw [show (c == '\n') = false from beq_eq_false_iff_ne.2 hc] at h
                  obtain ⟨u, v, hcs, hk⟩ := exists_feed_of_heredocBodyFrom? hlabel h
                  have hu : u.length < b.length := by omega
                  rcases List.append_eq_append_iff.1 hcs with ⟨w, hw, -⟩ | ⟨w, hw, hv⟩
                  · rw [hw, List.length_append] at hu
                    omega
                  · match w with
                    | [] =>
                        rw [hw, List.append_nil] at hu
                        omega
                    | d :: w =>
                        cases hv
                        exact ⟨c :: u, w, by rw [hw]; rfl⟩
              have hclosing' : closingLabel? label (c :: (b ++ r')) = none := by
                rw [← List.cons_append, huv, List.append_assoc, List.cons_append] at hclosing ⊢
                rw [closingLabel?_congr_line hlabel u (v ++ r') (v ++ r)]
                exact hclosing
              rw [hclosing']
              exact ih h

/-! ## The literal -/

/-- Whether a line begins behind `x`, if one begins `before` it or not. -/
def lineBegins (before : Bool) (x : List Char) : Bool :=
  (x.getLast?.map (· == '\n')).getD before

theorem lineBegins_cons (before : Bool) (c : Char) (x : List Char) :
    lineBegins before (c :: x) = lineBegins (c == '\n') x := by
  cases x with
  | nil => rfl
  | cons d x => rw [lineBegins, lineBegins, List.getLast?_cons_cons]; rfl

/-- The body ends with a closing label where a line begins, and no line before that
one begins with a closing label. -/
theorem heredocBodyFrom?_spec {label : List Char} {n k : Nat} {before : Bool} {cs : List Char}
    (h : heredocBodyFrom? label n before cs = some k) :
    ∃ lines closing m, cs = lines ++ closing ∧ lineBegins before lines = true ∧
      closingLabel? label closing = some m ∧ k = n + (lines.length + m) ∧
      ∀ x y, cs = x ++ y → lineBegins before x = true → x.length < lines.length →
        closingLabel? label y = none := by
  fun_induction heredocBodyFrom? label n before cs with
  | case1 n =>
      obtain ⟨m, hm, rfl⟩ := Option.map_eq_some_iff.1 h
      exact ⟨[], [], m, rfl, rfl, hm, by simp, fun x y _ _ hx => absurd hx (Nat.not_lt_zero _)⟩
  | case2 => cases h
  | case3 n before c cs m hm =>
      cases h
      cases before with
      | false => cases hm
      | true =>
          exact ⟨[], c :: cs, m, rfl, rfl, hm, by simp,
            fun x y _ _ hx => absurd hx (Nat.not_lt_zero _)⟩
  | case4 n before c cs hnone ih =>
      obtain ⟨lines, closing, m, rfl, hlines, hm, rfl, hfirst⟩ := ih h
      refine ⟨c :: lines, closing, m, rfl, (lineBegins_cons before c lines).trans hlines, hm,
        by rw [List.length_cons]; omega, ?_⟩
      intro x y hxy hx hlength
      match x with
      | [] =>
          obtain rfl : before = true := hx
          rw [List.nil_append] at hxy
          rw [← hxy]
          exact hnone
      | d :: x =>
          obtain ⟨rfl, hrest⟩ := List.cons.inj hxy
          rw [lineBegins_cons] at hx
          exact hfirst x y hrest hx (Nat.lt_of_succ_lt_succ hlength)

/-- The body has no end just if no line of it begins with a closing label. -/
theorem heredocBodyFrom?_eq_none_iff {label : List Char} {n : Nat} {before : Bool}
    {cs : List Char} :
    heredocBodyFrom? label n before cs = none ↔
      ∀ x y, cs = x ++ y → lineBegins before x = true → closingLabel? label y = none := by
  constructor
  · intro h x y hcs hx
    induction x generalizing n before cs with
    | nil =>
        obtain rfl : before = true := hx
        rw [List.nil_append] at hcs
        subst hcs
        cases hclosing : closingLabel? label cs with
        | none => rfl
        | some m => cases cs <;> simp [heredocBodyFrom?, hclosing] at h
    | cons c x ih =>
        rw [List.cons_append] at hcs
        subst hcs
        rw [lineBegins_cons] at hx
        refine ih (n := n + 1) ?_ rfl hx
        rw [heredocBodyFrom?] at h
        split at h
        · cases h
        · exact h
  · intro h
    cases hn : heredocBodyFrom? label n before cs with
    | none => rfl
    | some k =>
        obtain ⟨lines, closing, m, hcs, hlines, hm, -⟩ := heredocBodyFrom?_spec hn
        rw [h lines closing hcs hlines] at hm
        cases hm

/-- Behind a heredoc no name goes on. -/
theorem head?_any_of_heredocBodyLength? {label b r : List Char} (hlabel : IsName label)
    (h : heredocBodyLength? label (b ++ r) = some b.length) :
    r.head?.any isNameChar = false := by
  obtain ⟨lines, closing, m, htext, -, hm, hlength, -⟩ := heredocBodyFrom?_spec h
  obtain ⟨indent, rest, rfl, -, hstop, rfl⟩ := (closingLabel?_eq_some_iff hlabel).1 hm
  have hsplit : b ++ r = (lines ++ (indent ++ label)) ++ rest := by
    rw [htext]
    simp only [List.append_assoc]
  obtain ⟨-, rfl⟩ := List.append_inj hsplit (by
    rw [hlength, List.length_append, List.length_append]
    omega)
  exact hstop

/-- A heredoc is its header and a body. -/
theorem exists_heredoc_eq {t r label : List Char} {n : Nat}
    (hheader : heredocHeader? (t ++ r) = some (n, label))
    (hbody : (heredocBodyLength? label ((t ++ r).drop n)).map (n + ·) = some t.length) :
    ∃ header b, t = header ++ b ∧ n = header.length ∧ IsHeader label header (b ++ r) ∧
      heredocBodyLength? label (b ++ r) = some b.length := by
  obtain ⟨m, hbody, hlength⟩ := Option.map_eq_some_iff.1 hbody
  obtain ⟨header, body, htext, rfl, hshape⟩ := heredocHeader?_eq_some_iff.1 hheader
  have hhead : header <+: t :=
    List.prefix_of_prefix_length_le ⟨body, htext.symm⟩ (List.prefix_append t r) (by omega)
  obtain ⟨b, rfl⟩ := hhead
  rw [List.append_assoc] at htext hbody
  obtain rfl := List.append_cancel_left htext
  rw [List.drop_left] at hbody
  rw [List.length_append] at hlength
  obtain rfl : m = b.length := by omega
  exact ⟨header, b, rfl, rfl, hshape, hbody⟩

/-- Of what follows it, a heredoc sees whether a name goes on there. -/
theorem heredoc_congr {t r r' label : List Char} {n : Nat}
    (hheader : heredocHeader? (t ++ r) = some (n, label))
    (hbody : (heredocBodyLength? label ((t ++ r).drop n)).map (n + ·) = some t.length)
    (hr : r.head?.any isNameChar = false → r'.head?.any isNameChar = false) :
    heredocHeader? (t ++ r') = some (n, label) ∧
      (heredocBodyLength? label ((t ++ r').drop n)).map (n + ·) = some t.length := by
  obtain ⟨header, b, rfl, rfl, hshape, hbody⟩ := exists_heredoc_eq hheader hbody
  have hstop := head?_any_of_heredocBodyLength? hshape.isName hbody
  have hpos := (heredocBodyFrom?_bounds hshape.isName hbody).1
  have hbody' := heredocBodyFrom?_congr hshape.isName (n := 0) (b := b)
    (by rw [Nat.zero_add]; exact hbody) ((hr hstop).trans hstop.symm)
  rw [Nat.zero_add] at hbody'
  rw [List.append_assoc, List.drop_left, List.length_append]
  refine ⟨IsHeader.heredocHeader?_append (hshape.congr ?_), ?_⟩
  · match b, hpos with
    | c :: b, _ => rfl
  · rw [heredocBodyLength?, hbody']
    rfl

end PhpTokens.Lexer
