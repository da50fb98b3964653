import PhpTokens.Proofs.ByteSlice
import PhpTokens.Proofs.HeredocExtent
import PhpTokens.Proofs.LetterCase

/-!
# Extents measured over bytes

The extents of the lexer count characters of a list. A scanner that holds its
source as UTF-8 measures them in bytes, and reaches every part of the text by a
slice at a byte offset. Such a slice can fail: the offset may lie behind the end
of the text or inside a character. This module writes each measurement in that
form, with every slice checked, and proves that it gives the bytes of the extent
in characters. So none of the slices fails, on any text.

The reason is the same everywhere. An offset is the number of bytes of what has
been passed, or it counts marks and digits, which are ASCII.
-/

namespace PhpTokens.Lexer

/-- Why a scanner over bytes stops before the end of its source. Only `refused` is a
verdict on the source. A line or a column overflows where its numbers of 32 bits end, if
that is checked. -/
inductive Halt where
  | noSlice (text : List Char) (offset : Nat)
  | emptyLexeme
  | endless
  | overflow
  | refused (e : LexError)
deriving DecidableEq, Repr

/-- The text from a byte offset on. -/
def sliceFrom (text : List Char) (offset : Nat) : Except Halt (List Char) :=
  match Text.splitBytes? offset text with
  | some (_, rest) => .ok rest
  | none => .error (.noSlice text offset)

/-- The text up to a byte offset. -/
def sliceTo (text : List Char) (offset : Nat) : Except Halt (List Char) :=
  match Text.splitBytes? offset text with
  | some (head, _) => .ok head
  | none => .error (.noSlice text offset)

theorem ok_bind {α β : Type} (a : α) (f : α → Except Halt β) : (Except.ok a >>= f) = f a := rfl

theorem pure_eq_ok {α : Type} (a : α) : (pure a : Except Halt α) = .ok a := rfl

@[simp] theorem sliceFrom_append (xs ys : List Char) :
    sliceFrom (xs ++ ys) (Text.byteLength xs) = .ok ys := by
  rw [sliceFrom, Text.splitBytes?_append]

@[simp] theorem sliceTo_append (xs ys : List Char) :
    sliceTo (xs ++ ys) (Text.byteLength xs) = .ok xs := by
  rw [sliceTo, Text.splitBytes?_append]

/-- Number of bytes of the run of characters of a class at the head of a text. -/
def runBytes (p : Char → Bool) (cs : List Char) : Nat := Text.byteLength (cs.takeWhile p)

theorem take_length_takeWhile (p : Char → Bool) (cs : List Char) :
    cs.take (cs.takeWhile p).length = cs.takeWhile p :=
  (List.prefix_iff_eq_take.1 (List.takeWhile_prefix p)).symm

theorem byteLength_take_runLength (p : Char → Bool) (cs : List Char) :
    Text.byteLength (cs.take (runLength p cs)) = runBytes p cs := by
  rw [runLength, runBytes, take_length_takeWhile]

theorem sliceFrom_runBytes (p : Char → Bool) (cs : List Char) :
    sliceFrom cs (runBytes p cs) = .ok (cs.drop (runLength p cs)) := by
  have happend : cs = cs.takeWhile p ++ cs.drop (runLength p cs) := by
    rw [runLength, drop_takeWhile_length, List.takeWhile_append_dropWhile]
  have hslice := sliceFrom_append (cs.takeWhile p) (cs.drop (runLength p cs))
  rwa [← happend] at hslice

/-! ## Tags -/

/-- The open tag at a place where `<?` stands, with its length up to the word. -/
def openTagBytesAt (text : List Char) (offset : Nat) : Except Halt (Option (TokenType × Nat)) := do
  let after ← sliceFrom text (offset + 2)
  if after.head? = some '=' then
    return some (.openTagWithEcho, 3)
  else
    match Text.splitBytes? 3 after with
    | none => return none
    | some (word, _) =>
        if word.map Char.toLower = ['p', 'h', 'p'] then
          let rest ← sliceFrom after 3
          return if rest.head?.all isBlank then some (.openTag, 5) else none
        else return none

/-- The first open tag of a text with its offset, where the text from `offset` on is still
to be searched. -/
def openTagBytesFrom (text : List Char) (offset : Nat) :
    List Char → Except Halt (Option (Nat × TokenType × Nat))
  | [] => .ok none
  | c :: cs =>
      if ['<', '?'].isPrefixOf (c :: cs) then do
        match ← openTagBytesAt text offset with
        | some (type, n) => return some (offset, type, n)
        | none => openTagBytesFrom text (offset + c.utf8Size) cs
      else openTagBytesFrom text (offset + c.utf8Size) cs

/-- The first open tag of a text: offset, type, and length without a blank after it. -/
def openTagBytes (text : List Char) : Except Halt (Option (Nat × TokenType × Nat)) :=
  openTagBytesFrom text 0 text

/-- Number of bytes of the open tag at the head of a text, with the blank that belongs to
it. -/
def tagBytes (text : List Char) (type : TokenType) (n : Nat) : Except Halt Nat :=
  if type = .openTag then do
    let after ← sliceFrom text n
    if ['\r', '\n'].isPrefixOf after then return n + 2
    else if after.head?.any isBlank then return n + 1
    else return n
  else .ok n

/-- Number of bytes of an open tag without a blank after it. -/
def bareTagBytes (type : TokenType) : Nat := if type = .openTag then 5 else 3

theorem IsPhp.byteLength_eq {a b c : Char} (h : IsPhp a b c) : Text.byteLength [a, b, c] = 3 := by
  obtain ⟨ha, hb, hc⟩ := h
  rw [← byteLength_map_toLower, List.map_cons, List.map_cons, List.map_cons, ha, hb, hc]
  rfl

theorem exists_isPhp {word : List Char} (h : word.map Char.toLower = ['p', 'h', 'p']) :
    ∃ a b c, word = [a, b, c] ∧ IsPhp a b c := by
  obtain ⟨a, u, rfl, ha, hu⟩ := List.map_eq_cons_iff.1 h
  obtain ⟨b, v, rfl, hb, hv⟩ := List.map_eq_cons_iff.1 hu
  obtain ⟨c, w, rfl, hc, hw⟩ := List.map_eq_cons_iff.1 hv
  rw [List.map_eq_nil_iff.1 hw]
  exact ⟨a, b, c, rfl, ha, hb, hc⟩

/-- The word `php` makes a tag where a blank or the end of the text follows it. -/
theorem IsPhp.openTag?_map {a b c : Char} (h : IsPhp a b c) (rest : List Char) :
    (openTag? ('<' :: '?' :: a :: b :: c :: rest)).map (fun tag => (tag.1, bareTagBytes tag.1)) =
      if rest.head?.all isBlank then some (.openTag, 5) else none := by
  rw [openTag?_php h]
  split
  · rfl
  · rfl
  · next d _ _ =>
      rw [List.head?_cons, Option.all_some]
      split <;> rfl

theorem openTag?_eq_none {after : List Char} (hecho : after.head? ≠ some '=')
    (hword : ∀ a b c rest, after = a :: b :: c :: rest → ¬ IsPhp a b c) :
    openTag? ('<' :: '?' :: after) = none := by
  refine Option.not_isSome_iff_eq_none.1 fun htag => ?_
  obtain ⟨rest, hcs⟩ | ⟨a, b, c, rest, hcs, hphp, -⟩ := openTag?_isSome_iff.1 htag
  · cases hcs
    exact hecho rfl
  · cases hcs
    exact hword a b c rest rfl hphp

theorem openTagBytesAt_eq (x after : List Char) :
    openTagBytesAt (x ++ '<' :: '?' :: after) (Text.byteLength x) =
      .ok ((openTag? ('<' :: '?' :: after)).map fun tag => (tag.1, bareTagBytes tag.1)) := by
  have hslice : sliceFrom (x ++ '<' :: '?' :: after) (Text.byteLength x + 2) = .ok after := by
    have hslice := sliceFrom_append (x ++ ['<', '?']) after
    rwa [Text.byteLength_append, List.append_assoc] at hslice
  -- a word that begins with `php` is cut off by the first three bytes
  have hcut : ∀ {a b c : Char} {rest : List Char}, IsPhp a b c →
      Text.splitBytes? 3 (a :: b :: c :: rest) = some ([a, b, c], rest) :=
    fun hphp => Text.splitBytes?_eq_some_iff.2 ⟨rfl, hphp.byteLength_eq.symm⟩
  rw [openTagBytesAt, hslice, ok_bind]
  split
  · next hecho =>
      obtain ⟨rest, rfl⟩ := List.head?_eq_some_iff.1 hecho
      rfl
  · next hecho =>
      split
      · next hnone =>
          rw [openTag?_eq_none hecho]
          · rfl
          · rintro a b c rest rfl hphp
            rw [hcut hphp] at hnone
            cases hnone
      · next word rest hword =>
          split
          · next hlower =>
              obtain ⟨a, b, c, rfl, hphp⟩ := exists_isPhp hlower
              obtain ⟨rfl, hsize⟩ := Text.splitBytes?_eq_some_iff.1 hword
              rw [hsize, sliceFrom_append, ok_bind]
              exact congrArg Except.ok (hphp.openTag?_map rest).symm
          · next hlower =>
              rw [openTag?_eq_none hecho]
              · rfl
              · rintro a b c rest' rfl hphp
                rw [hcut hphp] at hword
                cases hword
                obtain ⟨ha, hb, hc⟩ := hphp
                exact hlower (by rw [List.map_cons, List.map_cons, List.map_cons, ha, hb, hc]; rfl)

/-- One place of the search for a tag. -/
theorem openTagBytesFrom_cons (x : List Char) (c : Char) (cs : List Char) :
    openTagBytesFrom (x ++ c :: cs) (Text.byteLength x) (c :: cs) =
      match openTag? (c :: cs) with
      | some (type, _) => .ok (some (Text.byteLength x, type, bareTagBytes type))
      | none => openTagBytesFrom ((x ++ [c]) ++ cs) (Text.byteLength (x ++ [c])) cs := by
  have hnext : openTagBytesFrom (x ++ c :: cs) (Text.byteLength x + c.utf8Size) cs =
      openTagBytesFrom ((x ++ [c]) ++ cs) (Text.byteLength (x ++ [c])) cs := by
    rw [List.append_assoc, Text.byteLength_append, Text.byteLength_cons]
    rfl
  rw [openTagBytesFrom]
  split
  · next hmark =>
      obtain ⟨after, hafter⟩ := List.isPrefixOf_iff_prefix.1 hmark
      cases hafter
      change (openTagBytesAt (x ++ '<' :: '?' :: after) (Text.byteLength x) >>= _) = _
      rw [openTagBytesAt_eq, ok_bind]
      change _ = match openTag? ('<' :: '?' :: after) with | some (type, _) => _ | none => _
      cases openTag? ('<' :: '?' :: after) with
      | none => exact hnext
      | some tag => rfl
  · next hmark =>
      have hnone : openTag? (c :: cs) = none := by
        refine Option.not_isSome_iff_eq_none.1 fun htag => hmark ?_
        refine List.isPrefixOf_iff_prefix.2 ?_
        obtain ⟨after, hcs⟩ | ⟨a, b, d, after, hcs, -⟩ := openTag?_isSome_iff.1 htag
        · exact ⟨_, hcs.symm⟩
        · exact ⟨_, hcs.symm⟩
      rw [hnone]
      exact hnext

theorem openTagBytesFrom_eq_none {cs : List Char} (h : ∀ m, openTag? (cs.drop m) = none)
    (x : List Char) : openTagBytesFrom (x ++ cs) (Text.byteLength x) cs = .ok none := by
  induction cs generalizing x with
  | nil => rfl
  | cons c cs ih =>
      have hhere := h 0
      rw [List.drop_zero] at hhere
      rw [openTagBytesFrom_cons, hhere]
      exact ih (fun m => h (m + 1)) (x ++ [c])

theorem openTagBytesFrom_eq_some {html rest : List Char} {type : TokenType} {n : Nat}
    (htag : openTag? rest = some (type, n))
    (hfirst : ∀ m < html.length, openTag? ((html ++ rest).drop m) = none) (x : List Char) :
    openTagBytesFrom (x ++ (html ++ rest)) (Text.byteLength x) (html ++ rest) =
      .ok (some (Text.byteLength (x ++ html), type, bareTagBytes type)) := by
  induction html generalizing x with
  | nil =>
      cases rest with
      | nil => cases htag
      | cons c rest => rw [List.nil_append, openTagBytesFrom_cons, htag, List.append_nil]
  | cons c html ih =>
      have hhere := hfirst 0 (Nat.succ_pos _)
      rw [List.drop_zero, List.cons_append] at hhere
      rw [List.cons_append, openTagBytesFrom_cons, hhere, List.append_cons x c html]
      exact ih (fun m hm => hfirst (m + 1) (Nat.succ_lt_succ hm)) (x ++ [c])

/-- Template text is what stands before the first tag that the search finds. -/
theorem openTagBytes_spec (cs : List Char) :
    (openTagBytes cs = .ok none ∧ templateLength cs = cs.length ∧
        ∀ m, openTag? (cs.drop m) = none) ∨
      ∃ html rest type n, cs = html ++ rest ∧ templateLength cs = html.length ∧
        openTag? rest = some (type, n) ∧
        openTagBytes cs = .ok (some (Text.byteLength html, type, bareTagBytes type)) := by
  cases hoffset : Text.offsetOf? (fun rest => (openTag? rest).isSome) cs with
  | none =>
      have hnone : ∀ m, openTag? (cs.drop m) = none := fun m =>
        Option.not_isSome_iff_eq_none.1 (by rw [Text.offsetOf?_eq_none hoffset m]; simp)
      refine .inl ⟨openTagBytesFrom_eq_none hnone [], ?_, hnone⟩
      rw [templateLength, hoffset]
      rfl
  | some k =>
      obtain ⟨hk, htag, hfirst⟩ := Text.offsetOf?_eq_some_iff.1 hoffset
      obtain ⟨html, rest, rfl, rfl⟩ : ∃ html rest, cs = html ++ rest ∧ k = html.length :=
        ⟨cs.take k, cs.drop k, (List.take_append_drop k cs).symm, (List.length_take_of_le hk).symm⟩
      rw [List.drop_left] at htag
      obtain ⟨⟨type, n⟩, htag⟩ := Option.isSome_iff_exists.1 htag
      refine .inr ⟨html, rest, type, n, rfl, ?_, htag, ?_⟩
      · rw [templateLength, hoffset]
        rfl
      · refine openTagBytesFrom_eq_some htag (fun m hm => ?_) []
        exact Option.not_isSome_iff_eq_none.1 (by rw [hfirst m hm]; simp)

theorem IsPhp.byteLength_tag {a b c : Char} (h : IsPhp a b c) (rest : List Char) :
    Text.byteLength ('<' :: '?' :: a :: b :: c :: rest) = 5 + Text.byteLength rest := by
  change Text.byteLength (['<', '?'] ++ ([a, b, c] ++ rest)) = _
  rw [Text.byteLength_append, Text.byteLength_append, h.byteLength_eq, ← Nat.add_assoc]
  rfl

theorem IsPhp.tagBytes_eq {a b c : Char} (h : IsPhp a b c) (rest : List Char) :
    tagBytes ('<' :: '?' :: a :: b :: c :: rest) .openTag 5 =
      .ok (5 + if ['\r', '\n'].isPrefixOf rest then 2
        else if rest.head?.any isBlank then 1 else 0) := by
  have hslice := sliceFrom_append ['<', '?', a, b, c] rest
  rw [h.byteLength_tag] at hslice
  rw [tagBytes, if_pos rfl]
  change (sliceFrom (['<', '?', a, b, c] ++ rest) (5 + Text.byteLength []) >>= _) = _
  rw [hslice, ok_bind]
  split
  · rfl
  · split <;> rfl

theorem utf8Size_of_isBlank {c : Char} (h : isBlank c = true) : c.utf8Size = 1 := by
  have hrange := isBlank_iff.1 h
  exact Text.utf8Size_eq_one (by omega)

theorem tagBytes_eq {cs : List Char} {type : TokenType} {n : Nat}
    (h : openTag? cs = some (type, n)) :
    tagBytes cs type (bareTagBytes type) = .ok (Text.byteLength (cs.take n)) := by
  obtain ⟨tag, after, rfl, rfl, htag⟩ := isOpenTag_of_openTag? h
  rw [List.take_left]
  cases htag with
  | echo after => rfl
  | last hphp =>
      rw [hphp.byteLength_tag]
      exact hphp.tagBytes_eq []
  | pair hphp after =>
      rw [hphp.byteLength_tag]
      exact hphp.tagBytes_eq ('\r' :: '\n' :: after)
  | blank hphp hd hafter =>
      rename_i d
      have hpair : ¬ ['\r', '\n'].isPrefixOf (d :: after) = true := by
        intro hpair
        obtain ⟨rest, hrest⟩ := List.isPrefixOf_iff_prefix.1 hpair
        cases hrest
        exact hafter rfl rfl
      have hblank : (d :: after).head?.any isBlank = true := hd
      have htag := hphp.tagBytes_eq (d :: after)
      rw [if_neg hpair, if_pos hblank] at htag
      rw [hphp.byteLength_tag, Text.byteLength_cons, utf8Size_of_isBlank hd]
      exact htag

/-! ## Comments and quoted literals -/

/-- Number of bytes of a line comment, where the body from `offset` on is still to be
read. -/
def lineCommentBytesFrom (text body : List Char) (mark offset : Nat) :
    List Char → Except Halt Nat
  | [] => .ok (Text.byteLength text)
  | c :: cs =>
      if c = '\n' then .ok (mark + offset + 1)
      else if c = '\r' then do
        let rest ← sliceFrom body offset
        return mark + offset + lineBreakLength rest
      else if c = '?' then do
        let rest ← sliceFrom body offset
        if ['?', '>'].isPrefixOf rest then return mark + offset
        else lineCommentBytesFrom text body mark (offset + c.utf8Size) cs
      else lineCommentBytesFrom text body mark (offset + c.utf8Size) cs

/-- Number of bytes of a line comment whose mark has `mark` bytes. -/
def lineCommentBytes (mark : Nat) (text : List Char) : Except Halt Nat := do
  let body ← sliceFrom text mark
  lineCommentBytesFrom text body mark 0 body

/-- Number of bytes of the block comment at the head of a text, if it ends. -/
def blockCommentBytes? (text : List Char) : Except Halt (Option Nat) := do
  let body ← sliceFrom text 2
  return (Text.byteOffsetOf? (['*', '/'].isPrefixOf ·) body).map (· + 4)

/-- Whether the block comment at the head of a text documents something. -/
def isDocBytes (text : List Char) : Except Halt Bool :=
  if ['/', '*', '*'].isPrefixOf text then do
    let after ← sliceFrom text 3
    return after.head?.any isBlank
  else .ok false

/-- Number of bytes of a literal, with `offset` of them passed and perhaps a backslash
just before. -/
def quotedBytesFrom? (quote : Char) (escaped : Bool) (offset : Nat) : List Char → Option Nat
  | [] => none
  | c :: cs =>
      if escaped then quotedBytesFrom? quote false (offset + c.utf8Size) cs
      else if c = '\\' then quotedBytesFrom? quote true (offset + c.utf8Size) cs
      else if c = quote then some (offset + c.utf8Size)
      else quotedBytesFrom? quote false (offset + c.utf8Size) cs

/-- Number of bytes of the quoted literal at the head of a text, if it ends. -/
def quotedBytes? (quote : Char) (text : List Char) : Option Nat :=
  quotedBytesFrom? quote false (Text.byteLength (text.take 1)) (text.drop 1)

theorem IsLineBreak.byteLength_eq {newline body : List Char} (h : IsLineBreak newline body) :
    Text.byteLength newline = newline.length := by
  cases h <;> rfl

theorem lineCommentBytesFrom_return (text x cs : List Char) (mark : Nat) :
    lineCommentBytesFrom text (x ++ '\r' :: cs) mark (Text.byteLength x) ('\r' :: cs) =
      .ok (mark + Text.byteLength x + lineBreakLength ('\r' :: cs)) := by
  rw [lineCommentBytesFrom, if_neg (by decide), if_pos rfl, sliceFrom_append]
  rfl

theorem lineCommentBytesFrom_skip {c : Char} {cs : List Char} (hfeed : c ≠ '\n')
    (hreturn : c ≠ '\r') (hclose : ¬ (c = '?' ∧ cs.head? = some '>')) (text x : List Char)
    (mark : Nat) :
    lineCommentBytesFrom text (x ++ c :: cs) mark (Text.byteLength x) (c :: cs) =
      lineCommentBytesFrom text ((x ++ [c]) ++ cs) mark (Text.byteLength (x ++ [c])) cs := by
  rw [lineCommentBytesFrom, if_neg hfeed, if_neg hreturn, sliceFrom_append, ok_bind,
    ← List.append_cons, Text.byteLength_concat]
  split
  · next hc =>
      subst hc
      rw [if_neg]
      intro hprefix
      obtain ⟨after, hafter⟩ := List.isPrefixOf_iff_prefix.1 hprefix
      cases hafter
      exact hclose ⟨rfl, rfl⟩
  · rfl

/-- What ends a line comment is seen where it stands. -/
theorem EndsComment.lineCommentBytesFrom_append {ending rest : List Char}
    (h : EndsComment ending rest) (m x : List Char) :
    lineCommentBytesFrom (m ++ (x ++ (ending ++ rest))) (x ++ (ending ++ rest))
        (Text.byteLength m) (Text.byteLength x) (ending ++ rest) =
      .ok (Text.byteLength m + Text.byteLength x + Text.byteLength ending) := by
  cases h with
  | newline hnewline =>
      rw [hnewline.byteLength_eq, ← lineBreakLength_append hnewline]
      cases hnewline with
      | pair => exact lineCommentBytesFrom_return _ x ('\n' :: rest) _
      | feed => rfl
      | carriage hbody => exact lineCommentBytesFrom_return _ x rest _
  | close after =>
      rw [List.nil_append, lineCommentBytesFrom, if_neg (by decide), if_neg (by decide),
        if_pos rfl, sliceFrom_append]
      rfl
  | last =>
      rw [List.append_nil, List.append_nil, lineCommentBytesFrom, Text.byteLength_append]
      rfl

/-- The induction is on the text before the ending, with the part of the body that has been
passed in `x`. -/
theorem lineCommentBytesFrom_append {body ending rest : List Char} (hbody : IsLineText body)
    (hending : EndsComment ending rest) (m x : List Char) :
    lineCommentBytesFrom (m ++ (x ++ (body ++ (ending ++ rest)))) (x ++ (body ++ (ending ++ rest)))
        (Text.byteLength m) (Text.byteLength x) (body ++ (ending ++ rest)) =
      .ok (Text.byteLength m + Text.byteLength x + Text.byteLength (body ++ ending)) := by
  induction body generalizing x with
  | nil => exact hending.lineCommentBytesFrom_append m x
  | cons c body ih =>
      obtain ⟨hfeed, hreturn, hclose, hbody⟩ := isLineText_cons_iff.1 hbody
      have hnext : ¬ (c = '?' ∧ (body ++ (ending ++ rest)).head? = some '>') := by
        rintro ⟨hc, hhead⟩
        cases body with
        | nil => exact hending.head?_ne hhead
        | cons d body => exact hclose ⟨hc, hhead⟩
      have hrest := ih hbody (x ++ [c])
      rw [Text.byteLength_concat] at hrest
      rw [List.cons_append, lineCommentBytesFrom_skip hfeed hreturn hnext,
        Text.byteLength_concat, List.append_cons x c (body ++ (ending ++ rest)), hrest,
        List.cons_append, Text.byteLength_cons]
      simp only [Nat.add_assoc]

theorem OpensLineComment.exists_append {c : Char} {cs : List Char} {n : Nat}
    (h : OpensLineComment c cs n) :
    ∃ mark body, c :: cs = mark ++ body ∧ n = mark.length ∧ n = Text.byteLength mark := by
  cases h with
  | hash hc => exact ⟨['#'], cs, by rw [hc]; rfl, rfl, rfl⟩
  | slashes hc hcs =>
      obtain ⟨body, rfl⟩ := List.head?_eq_some_iff.1 hcs
      exact ⟨['/', '/'], body, by rw [hc]; rfl, rfl, rfl⟩

theorem lineCommentBytes_eq {c : Char} {cs : List Char} {n : Nat}
    (h : OpensLineComment c cs n) :
    lineCommentBytes n (c :: cs) =
      .ok (Text.byteLength ((c :: cs).take (lineCommentLength n (c :: cs)))) := by
  obtain ⟨mark, text, hcs, hlength, hsize⟩ := h.exists_append
  obtain ⟨body, ending, rest, rfl, hbody, hending, hcomment⟩ := lineCommentFrom_spec n text
  have htake : (mark ++ (body ++ (ending ++ rest))).take (n + (body ++ ending).length) =
      mark ++ (body ++ ending) := by
    have hfront : mark ++ (body ++ (ending ++ rest)) = (mark ++ (body ++ ending)) ++ rest := by
      simp
    rw [hfront, hlength, ← List.length_append, List.take_left]
  rw [hcs, lineCommentLength, hlength, List.drop_left, ← hlength, hcomment, htake,
    lineCommentBytes, hsize, sliceFrom_append, ok_bind, Text.byteLength_append]
  exact lineCommentBytesFrom_append hbody hending mark []

theorem blockCommentFrom?_eq_map (n : Nat) (cs : List Char) :
    blockCommentFrom? n cs =
      (Text.offsetFrom? (['*', '/'].isPrefixOf ·) n cs).map (· + 2) := by
  fun_induction blockCommentFrom? n cs with
  | case1 => rfl
  | case2 => rfl
  | case3 n c cs hskip ih =>
      rw [Text.offsetFrom?, if_neg, ih]
      intro hclose
      obtain ⟨after, hafter⟩ := List.isPrefixOf_iff_prefix.1 hclose
      cases hafter
      exact hskip after rfl rfl

theorem blockCommentBytes?_eq (cs : List Char) :
    blockCommentBytes? ('/' :: '*' :: cs) =
      .ok ((blockCommentLength? ('/' :: '*' :: cs)).map fun n =>
        Text.byteLength (('/' :: '*' :: cs).take n)) := by
  have hslice : sliceFrom ('/' :: '*' :: cs) 2 = .ok cs := sliceFrom_append ['/', '*'] cs
  have hlength : blockCommentLength? ('/' :: '*' :: cs) =
      (Text.offsetOf? (['*', '/'].isPrefixOf ·) cs).map (2 + · + 2) := by
    change blockCommentFrom? 2 cs = _
    rw [blockCommentFrom?_eq_map, Text.offsetFrom?_eq_map, Option.map_map]
    rfl
  rw [blockCommentBytes?, hslice, ok_bind, pure_eq_ok, hlength, Text.byteOffsetOf?]
  cases hoffset : Text.offsetOf? (['*', '/'].isPrefixOf ·) cs with
  | none => rfl
  | some k =>
      obtain ⟨-, hclose, -⟩ := Text.offsetOf?_eq_some_iff.1 hoffset
      obtain ⟨after, hafter⟩ := List.isPrefixOf_iff_prefix.1 hclose
      have htake : cs.take (k + 2) = cs.take k ++ ['*', '/'] := by
        rw [List.take_add, ← hafter]
        rfl
      rw [Option.map_some, Option.map_some, Option.map_some, Option.map_some,
        show 2 + k + 2 = k + 2 + 2 by omega, List.take_succ_cons, List.take_succ_cons, htake,
        Text.byteLength_cons, Text.byteLength_cons, Text.byteLength_append]
      change Except.ok (some (_ + 4)) = Except.ok (some (1 + (1 + (_ + 2))))
      rw [show ∀ m, m + 4 = 1 + (1 + (m + 2)) by omega]

theorem isDocBytes_eq (cs : List Char) : isDocBytes cs = .ok (isDocComment cs) := by
  rw [isDocBytes]
  split
  · next hmark =>
      obtain ⟨after, rfl⟩ := List.isPrefixOf_iff_prefix.1 hmark
      have hslice : sliceFrom (['/', '*', '*'] ++ after) 3 = .ok after :=
        sliceFrom_append ['/', '*', '*'] after
      rw [hslice]
      cases after <;> rfl
  · next hmark =>
      unfold isDocComment
      split
      · exact absurd rfl hmark
      · rfl

theorem IsQuotedRest.quotedBytesFrom?_append {q : Char} (hq : q ≠ '\\') {t : List Char}
    (h : IsQuotedRest q t) (offset : Nat) (rest : List Char) :
    quotedBytesFrom? q false offset (t ++ rest) = some (offset + Text.byteLength t) := by
  induction h generalizing offset with
  | close => simp [quotedBytesFrom?, hq]
  | plain hescape hc _ ih =>
      rw [List.cons_append, quotedBytesFrom?, if_neg Bool.false_ne_true, if_neg hescape, if_neg hc,
        ih, Text.byteLength_cons, Nat.add_assoc]
  | escaped c _ ih =>
      -- the flag stands for the backslash while `c` is passed
      rw [List.cons_append, List.cons_append, quotedBytesFrom?, if_neg Bool.false_ne_true,
        if_pos rfl, quotedBytesFrom?, if_pos rfl, ih, Text.byteLength_cons, Text.byteLength_cons,
        Nat.add_assoc, Nat.add_assoc]

theorem quotedBytesFrom?_eq_none {q : Char} {n : Nat} {cs : List Char}
    (h : quotedFrom? q n cs = none) (offset : Nat) :
    quotedBytesFrom? q false offset cs = none := by
  fun_induction quotedFrom? q n cs generalizing offset with
  | case1 => rfl
  | case2 => cases h
  | case3 n c hc => simp [quotedBytesFrom?, hc]
  | case4 n d cs ih =>
      rw [quotedBytesFrom?, if_neg Bool.false_ne_true, if_pos rfl, quotedBytesFrom?, if_pos rfl]
      exact ih h _
  | case5 => cases h
  | case6 n c d cs hescape hc ih =>
      rw [quotedBytesFrom?, if_neg Bool.false_ne_true, if_neg hescape, if_neg hc]
      exact ih h _

theorem quotedBytes?_eq {q : Char} (hq : q ≠ '\\') (cs : List Char) :
    quotedBytes? q (q :: cs) =
      (quotedLength? (q :: cs)).map fun n => Text.byteLength ((q :: cs).take n) := by
  change quotedBytesFrom? q false (Text.byteLength [q]) cs = (quotedFrom? q 1 cs).map _
  cases hn : quotedFrom? q 1 cs with
  | none => exact quotedBytesFrom?_eq_none hn _
  | some n =>
      obtain ⟨t, rest, rfl, rfl, ht⟩ := quotedFrom?_spec hn
      rw [ht.quotedBytesFrom?_append hq, Option.map_some, Nat.add_comm 1, List.take_succ_cons,
        List.take_left, Text.byteLength_cons, Text.byteLength_cons, Text.byteLength_nil,
        Nat.add_zero]

/-! ## Heredocs -/

/-- Header of the heredoc at the head of a text: its number of bytes through the line break,
and the label. -/
def heredocHeaderBytes? (text : List Char) : Except Halt (Option (Nat × List Char)) :=
  match text with
  | '<' :: '<' :: '<' :: after => do
      let indent := runBytes isIndent after
      let opener ← sliceFrom after indent
      let quote? := labelQuote? opener
      let quoteSize := (quote?.map Char.utf8Size).getD 0
      let labelled ← sliceFrom opener quoteSize
      if labelled.head?.any isNameStart then
        let labelSize := runBytes isNameChar labelled
        let rest ← sliceFrom labelled labelSize
        if quote?.isNone ∨ rest.head? = quote? then
          let consumed := 3 + indent + quoteSize + labelSize + if quote?.isSome then 1 else 0
          let lineEnd ← sliceFrom text consumed
          let newline := lineBreakLength lineEnd
          if 0 < newline then
            let label ← sliceTo labelled labelSize
            return some (consumed + newline, label)
          else return none
        else return none
      else return none
  | _ => .ok none

/-- Number of bytes of the closing label at the head of a line, with its indentation. -/
def closingLabelBytes? (label line : List Char) : Except Halt (Option Nat) := do
  let indent := runBytes isIndent line
  let candidate ← sliceFrom line indent
  if label.isPrefixOf candidate then
    let after ← sliceFrom candidate (Text.byteLength label)
    return if after.head?.any isNameChar then none else some (indent + Text.byteLength label)
  else return none

/-- Number of bytes of a heredoc body, searched line by line from `lineStart` on in so many
rounds. -/
def heredocBodyBytesWithin? (label body : List Char) : Nat → Nat → Except Halt (Option Nat)
  | 0, _ => .error .endless
  | rounds + 1, lineStart => do
      let line ← sliceFrom body lineStart
      match ← closingLabelBytes? label line with
      | some n => return some (lineStart + n)
      | none =>
          match Text.byteOffsetOf? (·.head? = some '\n') line with
          | some n => heredocBodyBytesWithin? label body rounds (lineStart + (n + 1))
          | none => return none

/-- Number of bytes of the heredoc body at the head of a text. Every round passes at least
the byte of a line feed. -/
def heredocBodyBytes? (label body : List Char) : Except Halt (Option Nat) :=
  heredocBodyBytesWithin? label body (Text.byteLength body + 1) 0

theorem byteLength_take_lineBreakLength (cs : List Char) :
    Text.byteLength (cs.take (lineBreakLength cs)) = lineBreakLength cs := by
  unfold lineBreakLength
  split <;> rfl

/-- A text read as a header is read: indentation, a quote or none, a label and what follows. -/
structure LabelParts (after indent : List Char) (quote? : Option Char) (label rest : List Char) :
    Prop where
  after_eq : after = indent ++ (quote?.toList ++ (label ++ rest))
  indent_eq : after.takeWhile isIndent = indent
  quote_eq : labelQuote? (quote?.toList ++ (label ++ rest)) = quote?
  quote_cases : quote? = none ∨ quote? = some '\'' ∨ quote? = some '"'
  label_eq : (label ++ rest).takeWhile isNameChar = label

theorem exists_labelParts (after : List Char) :
    ∃ indent quote? label rest, LabelParts after indent quote? label rest := by
  obtain ⟨opener, hafter⟩ : ∃ opener, after = after.takeWhile isIndent ++ opener :=
    ⟨_, List.takeWhile_append_dropWhile.symm⟩
  obtain ⟨hcases, hquote⟩ := labelQuote?_spec opener
  obtain ⟨labelled, hopener⟩ : ∃ labelled, opener = (labelQuote? opener).toList ++ labelled :=
    ⟨_, eq_quote_append hquote⟩
  have hlabelled : labelled.takeWhile isNameChar ++ labelled.dropWhile isNameChar = labelled :=
    List.takeWhile_append_dropWhile
  refine ⟨after.takeWhile isIndent, labelQuote? opener, labelled.takeWhile isNameChar,
    labelled.dropWhile isNameChar, ?_, rfl, ?_, ?_, ?_⟩
  · rw [hlabelled, ← hopener, ← hafter]
  · rw [hlabelled, ← hopener]
  · cases hq : labelQuote? opener with
    | none => exact .inl rfl
    | some q =>
        rw [hq] at hcases
        simpa using hcases
  · rw [hlabelled]

namespace LabelParts

variable {after indent label rest : List Char} {quote? : Option Char}

theorem quote_length (h : LabelParts after indent quote? label rest) :
    (if quote?.isSome then 1 else 0) = quote?.toList.length := by
  rcases h.quote_cases with hquote | hquote | hquote <;> rw [hquote] <;> rfl

theorem quote_size (h : LabelParts after indent quote? label rest) :
    (quote?.map Char.utf8Size).getD 0 = Text.byteLength quote?.toList := by
  rcases h.quote_cases with hquote | hquote | hquote <;> rw [hquote] <;> rfl

theorem byteLength_quote (h : LabelParts after indent quote? label rest) :
    Text.byteLength quote?.toList = quote?.toList.length := by
  rcases h.quote_cases with hquote | hquote | hquote <;> rw [hquote] <;> rfl

theorem heredocHeader?_eq (h : LabelParts after indent quote? label rest) :
    heredocHeader? ('<' :: '<' :: '<' :: after) =
      if (label ++ rest).head?.any isNameStart ∧ (quote?.isNone ∨ rest.head? = quote?) ∧
          0 < lineBreakLength (rest.drop quote?.toList.length) then
        some ((headerText indent quote?.toList label []).length +
          lineBreakLength (rest.drop quote?.toList.length), label)
      else none := by
  have hlength : runLength isIndent after = indent.length := by rw [runLength, h.indent_eq]
  have hopener : after.drop indent.length = quote?.toList ++ (label ++ rest) := by
    rw [h.after_eq, List.drop_left]
  have hclosed : (if quote?.isSome = true then rest.head? = quote? else True) ↔
      quote?.isNone = true ∨ rest.head? = quote? := by
    cases quote? <;> simp
  have hfront : (headerText indent quote?.toList label []).length =
      3 + indent.length + quote?.toList.length + label.length + quote?.toList.length := by
    simp only [headerText, List.length_cons, List.length_append, List.length_nil]
    omega
  simp only [heredocHeader?, hlength, hopener, h.quote_eq, h.quote_length, List.drop_left,
    h.label_eq, hclosed, hfront]

/-- Where the quote is closed, the header is the text up to the line break. -/
theorem eq_headerText_append (h : LabelParts after indent quote? label rest)
    (hclosed : quote?.isNone = true ∨ rest.head? = quote?) :
    '<' :: '<' :: '<' :: after =
      headerText indent quote?.toList label [] ++ rest.drop quote?.toList.length := by
  have hrest : rest = quote?.toList ++ rest.drop quote?.toList.length := by
    rw [← h.quote_length]
    refine eq_quote_append fun hsome => hclosed.resolve_left fun hnone => ?_
    rw [Option.isNone_iff_eq_none.1 hnone] at hsome
    cases hsome
  rw [h.after_eq, headerText]
  conv => lhs; rw [hrest]
  simp

theorem heredocHeaderBytes?_eq (h : LabelParts after indent quote? label rest) :
    heredocHeaderBytes? ('<' :: '<' :: '<' :: after) =
      if (label ++ rest).head?.any isNameStart ∧ (quote?.isNone ∨ rest.head? = quote?) ∧
          0 < lineBreakLength (rest.drop quote?.toList.length) then
        .ok (some (Text.byteLength (headerText indent quote?.toList label []) +
          lineBreakLength (rest.drop quote?.toList.length), label))
      else .ok none := by
  have hopener : sliceFrom after (Text.byteLength indent) =
      .ok (quote?.toList ++ (label ++ rest)) := by
    rw [h.after_eq, sliceFrom_append]
  have hfront : Text.byteLength (headerText indent quote?.toList label []) =
      3 + Text.byteLength indent + Text.byteLength quote?.toList + Text.byteLength label +
        if quote?.isSome then 1 else 0 := by
    rw [byteLength_headerText, h.quote_length, h.byteLength_quote, Text.byteLength_nil,
      Nat.add_zero]
  simp only [heredocHeaderBytes?, runBytes, h.indent_eq, hopener, ok_bind, h.quote_eq,
    h.quote_size, sliceFrom_append, sliceTo_append, h.label_eq, ← hfront]
  by_cases hname : (label ++ rest).head?.any isNameStart = true
  · by_cases hclosed : quote?.isNone = true ∨ rest.head? = quote?
    · rw [if_pos hname, if_pos hclosed, h.eq_headerText_append hclosed, sliceFrom_append, ok_bind]
      by_cases hbreak : 0 < lineBreakLength (rest.drop quote?.toList.length)
      · rw [if_pos hbreak, if_pos ⟨hname, hclosed, hbreak⟩]
        rfl
      · rw [if_neg hbreak, if_neg fun hall => hbreak hall.2.2]
        rfl
    · rw [if_pos hname, if_neg hclosed, if_neg fun hall => hclosed hall.2.1]
      rfl
  · rw [if_neg hname, if_neg fun hall => hname hall.1]
    rfl

end LabelParts

theorem heredocHeaderBytes?_eq_ok_map (cs : List Char) :
    heredocHeaderBytes? cs =
      .ok ((heredocHeader? cs).map fun header =>
        (Text.byteLength (cs.take header.1), header.2)) := by
  by_cases hmark : ['<', '<', '<'] <+: cs
  · obtain ⟨after, rfl⟩ := hmark
    obtain ⟨indent, quote?, label, rest, hparts⟩ := exists_labelParts after
    change heredocHeaderBytes? ('<' :: '<' :: '<' :: after) =
      .ok ((heredocHeader? ('<' :: '<' :: '<' :: after)).map _)
    rw [hparts.heredocHeaderBytes?_eq, hparts.heredocHeader?_eq]
    split
    · next hheader =>
        rw [Option.map_some]
        change _ = Except.ok (some (Text.byteLength (('<' :: '<' :: '<' :: after).take _), label))
        rw [hparts.eq_headerText_append hheader.2.1, List.take_length_add_append,
          Text.byteLength_append, byteLength_take_lineBreakLength]
    · rfl
  · have hnone : heredocHeader? cs = none := by
      unfold heredocHeader?
      split
      · next after => exact absurd ⟨after, rfl⟩ hmark
      · rfl
    rw [hnone]
    unfold heredocHeaderBytes?
    split
    · next after => exact absurd ⟨after, rfl⟩ hmark
    · rfl

theorem closingLabelBytes?_eq (label line : List Char) :
    closingLabelBytes? label line =
      .ok ((closingLabel? label line).map fun n => Text.byteLength (line.take n)) := by
  rw [closingLabelBytes?, sliceFrom_runBytes, ok_bind, closingLabel?]
  by_cases hlabel : label.isPrefixOf (line.drop (runLength isIndent line)) = true
  · obtain ⟨after, hafter⟩ := List.isPrefixOf_iff_prefix.1 hlabel
    have htake : Text.byteLength (line.take (runLength isIndent line + label.length)) =
        runBytes isIndent line + Text.byteLength label := by
      rw [List.take_add, ← hafter, List.take_left, Text.byteLength_append,
        byteLength_take_runLength]
    rw [if_pos hlabel, ← hafter, sliceFrom_append, ok_bind, List.drop_left, pure_eq_ok]
    by_cases hname : after.head?.any isNameChar = true
    · rw [if_pos hname, if_neg (by simp [hname])]
      rfl
    · rw [if_neg hname, if_pos ⟨hafter ▸ hlabel, by simpa using hname⟩, Option.map_some, htake]
  · rw [if_neg hlabel, if_neg fun hboth => hlabel hboth.1]
    rfl

/-- One round of the search through a heredoc body. -/
theorem heredocBodyBytesWithin?_succ (label x cs : List Char) (rounds : Nat) :
    heredocBodyBytesWithin? label (x ++ cs) (rounds + 1) (Text.byteLength x) =
      match closingLabel? label cs with
      | some n => .ok (some (Text.byteLength (x ++ cs.take n)))
      | none =>
          match Text.byteOffsetOf? (·.head? = some '\n') cs with
          | some n => heredocBodyBytesWithin? label (x ++ cs) rounds (Text.byteLength x + (n + 1))
          | none => .ok none := by
  rw [heredocBodyBytesWithin?, sliceFrom_append, ok_bind, closingLabelBytes?_eq, ok_bind]
  cases closingLabel? label cs with
  | none => rfl
  | some n =>
      change _ = Except.ok (some (Text.byteLength (x ++ cs.take n)))
      rw [Text.byteLength_append]
      rfl

/-- The search over bytes makes the rounds of the search over characters, and each begins
where a line does. -/
theorem LineSearch.heredocBodyBytesWithin?_eq {label cs : List Char} {n rounds : Nat}
    {n? : Option Nat} (h : LineSearch label n cs rounds n?) (more : Nat) (x : List Char) :
    heredocBodyBytesWithin? label (x ++ cs) (more + rounds) (Text.byteLength x) =
      .ok (n?.map fun k => Text.byteLength (x ++ cs.take (k - n))) := by
  induction h generalizing x with
  | closed h =>
      rw [heredocBodyBytesWithin?_succ, h, Option.map_some, Nat.add_sub_cancel_left]
  | last h hfeed =>
      rw [heredocBodyBytesWithin?_succ, h, Text.byteOffsetOf?_head_eq_none hfeed]
      rfl
  | next h hfeed hrest ih =>
      rename_i n rounds line rest n?
      have hline : x ++ (line ++ '\n' :: rest) = (x ++ (line ++ ['\n'])) ++ rest := by simp
      have hsize : Text.byteLength x + (Text.byteLength line + 1) =
          Text.byteLength (x ++ (line ++ ['\n'])) := by
        rw [Text.byteLength_append, Text.byteLength_concat]
        rfl
      have hround : heredocBodyBytesWithin? label (x ++ (line ++ '\n' :: rest))
          (more + rounds + 1) (Text.byteLength x) =
          heredocBodyBytesWithin? label ((x ++ (line ++ ['\n'])) ++ rest) (more + rounds)
            (Text.byteLength (x ++ (line ++ ['\n']))) := by
        rw [heredocBodyBytesWithin?_succ, h, Text.byteOffsetOf?_head_append hfeed, ← hsize, ← hline]
      refine hround.trans ((ih _).trans (congrArg Except.ok (Option.map_congr fun k hk => ?_)))
      -- a place found in the rest lies behind the line
      obtain ⟨lines, closing, m, -, -, -, rfl, -⟩ :=
        heredocBodyFrom?_spec (hrest.eq.symm.trans hk)
      have hlength : n + line.length + 1 + (lines.length + m) - n =
          (line ++ ['\n']).length + (lines.length + m) := by
        rw [List.length_append, List.length_singleton]
        omega
      rw [hlength, Nat.add_sub_cancel_left, List.append_cons line '\n' rest,
        List.take_length_add_append, List.append_assoc]

theorem heredocBodyBytes?_eq (label body : List Char) :
    heredocBodyBytes? label body =
      .ok ((heredocBodyLength? label body).map fun n => Text.byteLength (body.take n)) := by
  obtain ⟨rounds, hrounds, hsearch⟩ := exists_lineSearch label 0 body
  have hfeeds : body.count '\n' ≤ Text.byteLength body :=
    Nat.le_trans List.count_le_length (Text.length_le_byteLength body)
  obtain ⟨more, hmore⟩ : ∃ more, Text.byteLength body + 1 = more + rounds :=
    ⟨Text.byteLength body + 1 - rounds, by omega⟩
  rw [heredocBodyBytes?, hmore]
  exact hsearch.heredocBodyBytesWithin?_eq more []

end PhpTokens.Lexer
