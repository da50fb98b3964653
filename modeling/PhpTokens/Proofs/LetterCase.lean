import PhpTokens.Proofs.CodeFault
import PhpTokens.Proofs.Delimited
import PhpTokens.Proofs.Number
import PhpTokens.Proofs.Tag

/-!
# The case of letters

Nothing that cuts a text sees whether an ASCII letter is a capital, apart from
the label that closes a heredoc. That is stated with `Char.toLower`, which
changes ASCII letters only: to lower a text, character by character, changes
none of the classes, extents and types found in it.

Two facts about characters carry all of it. Whatever the lexer asks of a
character has the same answer for both cases of a letter, which is checked
letter by letter (`apply_toLower`). And a character that the lexer looks for by
itself is no letter (`toLower_eq_iff`), or else it is looked for in both cases.
-/

namespace PhpTokens.Lexer

/-! ## Characters -/

/-- The capital letters of ASCII. -/
def capitals : List Char := (List.range 26).map fun n => Char.ofNat (65 + n)

theorem mem_capitals {c : Char} (hlow : 65 ≤ c.toNat) (hhigh : c.toNat ≤ 90) : c ∈ capitals := by
  refine List.mem_map.2 ⟨c.toNat - 65, List.mem_range.2 (by omega), ?_⟩
  rw [Nat.add_sub_cancel' hlow, Char.ofNat_toNat]

theorem toLower_eq_self_of_not_mem {c : Char} (h : c ∉ capitals) : c.toLower = c := by
  unfold Char.toLower
  split
  · next hcapital => exact absurd (mem_capitals hcapital.1 hcapital.2) h
  · rfl

/-- What holds of each capital holds of every character. -/
theorem apply_toLower {α : Type} [BEq α] [LawfulBEq α] {f : Char → α}
    (h : capitals.all (fun c => f c.toLower == f c) = true) (c : Char) : f c.toLower = f c := by
  by_cases hc : c ∈ capitals
  · exact eq_of_beq (List.all_eq_true.1 h c hc)
  · rw [toLower_eq_self_of_not_mem hc]

theorem toLower_iff {p : Char → Prop} [DecidablePred p]
    (h : capitals.all (fun c => decide (p c.toLower) == decide (p c)) = true) (c : Char) :
    p c.toLower ↔ p c :=
  decide_eq_decide.1 (apply_toLower (f := fun c => decide (p c)) h c)

@[simp] theorem isAlpha_toLower (c : Char) : c.toLower.isAlpha = c.isAlpha :=
  apply_toLower (f := Char.isAlpha) (by decide) c

@[simp] theorem toLower_toLower (c : Char) : c.toLower.toLower = c.toLower :=
  apply_toLower (f := Char.toLower) (by decide) c

@[simp] theorem isBlank_toLower (c : Char) : isBlank c.toLower = isBlank c :=
  apply_toLower (f := isBlank) (by decide) c

@[simp] theorem isDigit_toLower (c : Char) : c.toLower.isDigit = c.isDigit :=
  apply_toLower (f := Char.isDigit) (by decide) c

@[simp] theorem isNameStart_toLower (c : Char) : isNameStart c.toLower = isNameStart c :=
  apply_toLower (f := isNameStart) (by decide) c

@[simp] theorem isNameChar_toLower (c : Char) : isNameChar c.toLower = isNameChar c :=
  apply_toLower (f := isNameChar) (by decide) c

@[simp] theorem isHexDigit_toLower (c : Char) : isHexDigit c.toLower = isHexDigit c :=
  apply_toLower (f := isHexDigit) (by decide) c

@[simp] theorem isOctalDigit_toLower (c : Char) : isOctalDigit c.toLower = isOctalDigit c :=
  apply_toLower (f := isOctalDigit) (by decide) c

@[simp] theorem isBinaryDigit_toLower (c : Char) : isBinaryDigit c.toLower = isBinaryDigit c :=
  apply_toLower (f := isBinaryDigit) (by decide) c

@[simp] theorem utf8Size_toLower (c : Char) : c.toLower.utf8Size = c.utf8Size :=
  apply_toLower (f := Char.utf8Size) (by decide) c

/-- Lowering a character neither makes nor hides a character that is no letter. -/
theorem toLower_eq_iff {c d : Char} (hd : d.isAlpha = false) : c.toLower = d ↔ c = d := by
  by_cases hc : c ∈ capitals
  · have hletter : c.isAlpha = true :=
      List.all_eq_true.1 (by decide : capitals.all Char.isAlpha = true) c hc
    have hlower : c.toLower.isAlpha = true := (isAlpha_toLower c).trans hletter
    exact iff_of_false (ne_of_class hlower hd) (ne_of_class hletter hd)
  · rw [toLower_eq_self_of_not_mem hc]

theorem toLower_eq_self {c : Char} (hc : c.isAlpha = false) : c.toLower = c :=
  (toLower_eq_iff hc).2 rfl

/-! ## Runs and line breaks -/

theorem map_toLower_eq_iff {cs ds : List Char} (hds : ds.any Char.isAlpha = false) :
    cs.map Char.toLower = ds ↔ cs = ds := by
  induction ds generalizing cs with
  | nil => exact List.map_eq_nil_iff
  | cons d ds ih =>
      rw [List.any_cons, Bool.or_eq_false_iff] at hds
      cases cs with
      | nil => simp
      | cons c cs =>
          rw [List.map_cons, List.cons.injEq, List.cons.injEq, toLower_eq_iff hds.1, ih hds.2]

theorem head?_map_toLower_eq_iff {cs : List Char} {d : Char} (hd : d.isAlpha = false) :
    (cs.map Char.toLower).head? = some d ↔ cs.head? = some d := by
  cases cs with
  | nil => simp
  | cons c cs => simp [toLower_eq_iff hd]

theorem eq_cons_of_map_toLower {cs ds : List Char} {d : Char} (hd : d.isAlpha = false)
    (h : cs.map Char.toLower = d :: ds) : ∃ rest, cs = d :: rest ∧ rest.map Char.toLower = ds := by
  obtain ⟨c, rest, rfl, hc, hrest⟩ := List.map_eq_cons_iff.1 h
  exact ⟨rest, by rw [(toLower_eq_iff hd).1 hc], hrest⟩

theorem map_toLower_ne_cons {cs : List Char} {d : Char} (hd : d.isAlpha = false)
    (h : ∀ rest, cs ≠ d :: rest) (ds : List Char) : cs.map Char.toLower ≠ d :: ds := by
  intro heq
  obtain ⟨rest, hrest, -⟩ := eq_cons_of_map_toLower hd heq
  exact h rest hrest

theorem any_head?_map_toLower {p : Char → Bool} (hp : ∀ c, p c.toLower = p c) (cs : List Char) :
    (cs.map Char.toLower).head?.any p = cs.head?.any p := by
  cases cs with
  | nil => rfl
  | cons c cs => exact hp c

theorem takeWhile_map_toLower {p : Char → Bool} (hp : ∀ c, p c.toLower = p c) (cs : List Char) :
    (cs.map Char.toLower).takeWhile p = (cs.takeWhile p).map Char.toLower := by
  have hcomp : p ∘ Char.toLower = p := funext hp
  rw [List.takeWhile_map, hcomp]

theorem runLength_map_toLower {p : Char → Bool} (hp : ∀ c, p c.toLower = p c) (cs : List Char) :
    runLength p (cs.map Char.toLower) = runLength p cs := by
  rw [runLength, takeWhile_map_toLower hp, List.length_map, runLength]

@[simp] theorem byteLength_map_toLower (cs : List Char) :
    Text.byteLength (cs.map Char.toLower) = Text.byteLength cs := by
  induction cs with
  | nil => rfl
  | cons c cs ih =>
      rw [List.map_cons, Text.byteLength_cons, Text.byteLength_cons, ih, utf8Size_toLower]

@[simp] theorem advanceBy_map_toLower (p : Position) (cs : List Char) :
    p.advanceBy (cs.map Char.toLower) = p.advanceBy cs := by
  induction cs generalizing p with
  | nil => rfl
  | cons c cs ih =>
      have hone : p.advance c.toLower = p.advance c := by
        simp only [Position.advance, toLower_eq_iff (by decide : '\n'.isAlpha = false),
          utf8Size_toLower]
      rw [List.map_cons, Position.advanceBy_cons, Position.advanceBy_cons, hone, ih]

@[simp] theorem lineBreakLength_map_toLower (cs : List Char) :
    lineBreakLength (cs.map Char.toLower) = lineBreakLength cs := by
  fun_cases lineBreakLength cs with
  | case1 cs => rfl
  | case2 cs hfeed =>
      change lineBreakLength ('\r' :: cs.map Char.toLower) = 1
      rw [lineBreakLength]
      exact map_toLower_ne_cons (by decide) hfeed
  | case3 cs => rfl
  | case4 cs _ hreturn hfeed =>
      rw [lineBreakLength]
      · exact fun after => map_toLower_ne_cons (by decide) hreturn ('\n' :: after)
      · exact map_toLower_ne_cons (by decide) hreturn
      · exact map_toLower_ne_cons (by decide) hfeed

/-! ## Comments and string literals -/

@[simp] theorem lineCommentFrom_map_toLower (n : Nat) (cs : List Char) :
    lineCommentFrom n (cs.map Char.toLower) = lineCommentFrom n cs := by
  fun_induction lineCommentFrom n cs with
  | case1 n => rfl
  | case2 n cs => rfl
  | case3 n cs => rfl
  | case4 n cs hfeed =>
      change lineCommentFrom n ('\r' :: cs.map Char.toLower) = n + 1
      rw [lineCommentFrom]
      exact map_toLower_ne_cons (by decide) hfeed
  | case5 n cs => rfl
  | case6 n c cs hfeed _ hreturn hclose ih =>
      -- The last pattern applies if none before it does; each is about characters that
      -- are no letters.
      rw [List.map_cons, lineCommentFrom, ih]
      · exact fun hc => hfeed ((toLower_eq_iff (by decide)).1 hc)
      · exact fun after hc => absurd ((toLower_eq_iff (by decide)).1 hc) hreturn
      · exact fun hc => hreturn ((toLower_eq_iff (by decide)).1 hc)
      · exact fun after hc => map_toLower_ne_cons (by decide)
          (fun rest => hclose rest ((toLower_eq_iff (by decide)).1 hc)) after

@[simp] theorem lineCommentLength_map_toLower (mark : Nat) (cs : List Char) :
    lineCommentLength mark (cs.map Char.toLower) = lineCommentLength mark cs := by
  rw [lineCommentLength, ← List.map_drop, lineCommentFrom_map_toLower, lineCommentLength]

@[simp] theorem blockCommentFrom?_map_toLower (n : Nat) (cs : List Char) :
    blockCommentFrom? n (cs.map Char.toLower) = blockCommentFrom? n cs := by
  fun_induction blockCommentFrom? n cs with
  | case1 n => rfl
  | case2 n cs => rfl
  | case3 n c cs hclose ih =>
      rw [List.map_cons, blockCommentFrom?, ih]
      exact fun after hc => map_toLower_ne_cons (by decide)
        (fun rest => hclose rest ((toLower_eq_iff (by decide)).1 hc)) after

@[simp] theorem blockCommentLength?_map_toLower (cs : List Char) :
    blockCommentLength? (cs.map Char.toLower) = blockCommentLength? cs := by
  rw [blockCommentLength?, ← List.map_drop, blockCommentFrom?_map_toLower, blockCommentLength?]

@[simp] theorem isDocComment_map_toLower (cs : List Char) :
    isDocComment (cs.map Char.toLower) = isDocComment cs := by
  fun_cases isDocComment cs with
  | case1 c cs => exact isBlank_toLower c
  | case2 cs hopen =>
      rw [isDocComment]
      intro d after heq
      obtain ⟨cs₁, rfl, h₁⟩ := eq_cons_of_map_toLower (by decide) heq
      obtain ⟨cs₂, rfl, h₂⟩ := eq_cons_of_map_toLower (by decide) h₁
      obtain ⟨cs₃, rfl, h₃⟩ := eq_cons_of_map_toLower (by decide) h₂
      obtain ⟨c, cs₄, rfl, -, -⟩ := List.map_eq_cons_iff.1 h₃
      exact hopen c cs₄ rfl

/-- Only the quote itself ends a literal, and a quote is no letter. -/
theorem quotedFrom?_map_toLower {q : Char} (hq : q.isAlpha = false) (n : Nat) (cs : List Char) :
    quotedFrom? q n (cs.map Char.toLower) = quotedFrom? q n cs := by
  have hescape (c : Char) : c.toLower = '\\' ↔ c = '\\' := toLower_eq_iff (by decide)
  fun_induction quotedFrom? q n cs with
  | case1 n => rfl
  | case2 n => simp [quotedFrom?, toLower_eq_iff hq]
  | case3 n c hc => simp [quotedFrom?, toLower_eq_iff hq, hc]
  | case4 n d cs ih => simp [quotedFrom?, ih]
  | case5 n d cs hc => simp [quotedFrom?, hescape, toLower_eq_iff hq, hc]
  | case6 n c d cs hc hclose ih =>
      rw [List.map_cons] at ih
      simp [quotedFrom?, hescape, toLower_eq_iff hq, hc, hclose, ih]

/-! ## Numbers -/

theorem digitsLength_map_toLower {isDigit : Char → Bool}
    (h : ∀ c, isDigit c.toLower = isDigit c) (cs : List Char) :
    digitsLength isDigit (cs.map Char.toLower) = digitsLength isDigit cs := by
  have hfrom (n : Nat) : digitsFrom isDigit n (cs.map Char.toLower) = digitsFrom isDigit n cs := by
    induction cs generalizing n with
    | nil => rfl
    | cons c cs ih =>
        simp only [List.map_cons, digitsFrom, h, any_head?_map_toLower h, ih,
          toLower_eq_iff (by decide : '_'.isAlpha = false)]
  exact hfrom 0

@[simp] theorem baseDigits?_toLower (c : Char) : baseDigits? c.toLower = baseDigits? c := by
  have hhex := toLower_iff (p := fun c => c = 'x' ∨ c = 'X') (by decide) c
  have hbinary := toLower_iff (p := fun c => c = 'b' ∨ c = 'B') (by decide) c
  have hoctal := toLower_iff (p := fun c => c = 'o' ∨ c = 'O') (by decide) c
  simp only [baseDigits?, hhex, hbinary, hoctal]

theorem apply_toLower_of_baseDigits? {c : Char} {isDigit : Char → Bool}
    (h : baseDigits? c = some isDigit) (d : Char) : isDigit d.toLower = isDigit d := by
  unfold baseDigits? at h
  split at h
  · cases h
    exact isHexDigit_toLower d
  · split at h
    · cases h
      exact isBinaryDigit_toLower d
    · split at h
      · cases h
        exact isOctalDigit_toLower d
      · cases h

@[simp] theorem basedLength?_map_toLower (cs : List Char) :
    basedLength? (cs.map Char.toLower) = basedLength? cs := by
  fun_cases basedLength? cs with
  | case1 c cs =>
      change basedLength? ('0' :: c.toLower :: cs.map Char.toLower) = _
      rw [basedLength?, baseDigits?_toLower]
      refine Option.bind_congr fun isDigit h => ?_
      rw [digitsLength_map_toLower (apply_toLower_of_baseDigits? h)]
  | case2 cs hzero =>
      rw [basedLength?]
      intro c after heq
      obtain ⟨rest, rfl, hrest⟩ := eq_cons_of_map_toLower (by decide) heq
      obtain ⟨base, digits, rfl, -, -⟩ := List.map_eq_cons_iff.1 hrest
      exact hzero base digits rfl

@[simp] theorem fractionLength_map_toLower (afterDigits : Bool) (cs : List Char) :
    fractionLength afterDigits (cs.map Char.toLower) = fractionLength afterDigits cs := by
  by_cases hpoint : ∃ after, cs = '.' :: after
  · obtain ⟨after, rfl⟩ := hpoint
    change fractionLength afterDigits ('.' :: after.map Char.toLower) = _
    rw [fractionLength, digitsLength_map_toLower isDigit_toLower, fractionLength]
  · have hpoint : ∀ after, cs ≠ '.' :: after := fun after h => hpoint ⟨after, h⟩
    rw [fractionLength, fractionLength]
    · exact hpoint
    · exact map_toLower_ne_cons (by decide) hpoint

theorem signedLength_of_unsigned {c : Char} (h : ¬ (c = '+' ∨ c = '-')) (cs : List Char) :
    signedLength (c :: cs) = digitsLength Char.isDigit (c :: cs) := by
  rw [signedLength]
  · intro after heq
    exact h (.inl (List.cons.inj heq).1)
  · intro after heq
    exact h (.inr (List.cons.inj heq).1)

theorem exponentLength_eq_zero {c : Char} (h : ¬ (c = 'e' ∨ c = 'E')) (cs : List Char) :
    exponentLength (c :: cs) = 0 := by
  rw [exponentLength]
  · intro after heq
    exact h (.inl (List.cons.inj heq).1)
  · intro after heq
    exact h (.inr (List.cons.inj heq).1)

@[simp] theorem signedLength_map_toLower (cs : List Char) :
    signedLength (cs.map Char.toLower) = signedLength cs := by
  cases cs with
  | nil => rfl
  | cons c cs =>
      have hlower : c.toLower = '+' ∨ c.toLower = '-' ↔ c = '+' ∨ c = '-' :=
        toLower_iff (p := fun c => c = '+' ∨ c = '-') (by decide) c
      have hdigits := digitsLength_map_toLower isDigit_toLower
      by_cases hc : c = '+' ∨ c = '-'
      · rw [List.map_cons, signedLength_cons (hlower.2 hc), signedLength_cons hc, hdigits]
      · rw [List.map_cons, signedLength_of_unsigned (mt hlower.1 hc), signedLength_of_unsigned hc,
          ← List.map_cons, hdigits]

@[simp] theorem exponentLength_map_toLower (cs : List Char) :
    exponentLength (cs.map Char.toLower) = exponentLength cs := by
  cases cs with
  | nil => rfl
  | cons c cs =>
      have hlower : c.toLower = 'e' ∨ c.toLower = 'E' ↔ c = 'e' ∨ c = 'E' :=
        toLower_iff (p := fun c => c = 'e' ∨ c = 'E') (by decide) c
      by_cases hc : c = 'e' ∨ c = 'E'
      · rw [List.map_cons, exponentLength_cons (hlower.2 hc), exponentLength_cons hc,
          signedLength_map_toLower]
      · rw [List.map_cons, exponentLength_eq_zero (mt hlower.1 hc), exponentLength_eq_zero hc]

@[simp] theorem number_map_toLower (cs : List Char) : number (cs.map Char.toLower) = number cs := by
  have hdecimal : decimalNumber (cs.map Char.toLower) = decimalNumber cs := by
    simp only [decimalNumber, ← List.map_drop, digitsLength_map_toLower isDigit_toLower,
      fractionLength_map_toLower, exponentLength_map_toLower]
  simp only [number, basedLength?_map_toLower, hdecimal]

/-! ## Tags -/

theorem IsPhp.toLower {a b c : Char} (h : IsPhp a b c) : IsPhp a.toLower b.toLower c.toLower := by
  unfold IsPhp
  rwa [toLower_toLower, toLower_toLower, toLower_toLower]

theorem IsOpenTag.map_toLower {type : TokenType} {tag after : List Char}
    (h : IsOpenTag type tag after) :
    IsOpenTag type (tag.map Char.toLower) (after.map Char.toLower) := by
  cases h with
  | echo after => exact .echo _
  | last h => exact .last h.toLower
  | pair h after => exact .pair h.toLower _
  | blank h hd hpair =>
      refine .blank h.toLower ((isBlank_toLower _).trans hd) ?_
      rwa [toLower_eq_iff (by decide), ne_eq, head?_map_toLower_eq_iff (by decide)]

theorem beginsCode_of_map_toLower {cs : List Char} (h : BeginsCode (cs.map Char.toLower)) :
    BeginsCode cs := by
  rcases h with ⟨after, heq⟩ | ⟨a, b, c, after, heq, hphp, hafter⟩
  · obtain ⟨cs₁, rfl, h₁⟩ := eq_cons_of_map_toLower (by decide) heq
    obtain ⟨cs₂, rfl, h₂⟩ := eq_cons_of_map_toLower (by decide) h₁
    obtain ⟨cs₃, rfl, -⟩ := eq_cons_of_map_toLower (by decide) h₂
    exact .inl ⟨cs₃, rfl⟩
  · obtain ⟨cs₁, rfl, h₁⟩ := eq_cons_of_map_toLower (by decide) heq
    obtain ⟨cs₂, rfl, h₂⟩ := eq_cons_of_map_toLower (by decide) h₁
    obtain ⟨a, cs₃, rfl, rfl, h₃⟩ := List.map_eq_cons_iff.1 h₂
    obtain ⟨b, cs₄, rfl, rfl, h₄⟩ := List.map_eq_cons_iff.1 h₃
    obtain ⟨c, cs₅, rfl, rfl, rfl⟩ := List.map_eq_cons_iff.1 h₄
    unfold IsPhp at hphp
    rw [toLower_toLower, toLower_toLower, toLower_toLower] at hphp
    rw [List.map_eq_nil_iff, any_head?_map_toLower isBlank_toLower] at hafter
    exact .inr ⟨a, b, c, cs₅, rfl, hphp, hafter⟩

@[simp] theorem openTag?_map_toLower (cs : List Char) :
    openTag? (cs.map Char.toLower) = openTag? cs := by
  cases htag : openTag? cs with
  | some found =>
      obtain ⟨type, n⟩ := found
      obtain ⟨tag, after, rfl, rfl, hopen⟩ := openTag?_eq_some_iff.1 htag
      rw [List.map_append, hopen.map_toLower.openTag?_append, List.length_map]
  | none =>
      -- Here the way back is needed: what begins code in small letters began it before.
      have hcode : ¬ BeginsCode cs := by
        rw [← openTag?_isSome_iff, htag]
        exact Bool.false_ne_true
      have hlower := mt beginsCode_of_map_toLower hcode
      rw [← openTag?_isSome_iff] at hlower
      simpa using hlower

theorem offsetFrom?_map_toLower {p : List Char → Bool}
    (hp : ∀ cs : List Char, p (cs.map Char.toLower) = p cs) (n : Nat) (cs : List Char) :
    Text.offsetFrom? p n (cs.map Char.toLower) = Text.offsetFrom? p n cs := by
  induction cs generalizing n with
  | nil => rfl
  | cons c cs ih =>
      rw [List.map_cons, Text.offsetFrom?, Text.offsetFrom?, ih, ← List.map_cons, hp]

@[simp] theorem cutTemplate_map_toLower (cs : List Char) :
    cutTemplate (cs.map Char.toLower) = cutTemplate cs := by
  have hlength : templateLength (cs.map Char.toLower) = templateLength cs := by
    have hp (rest : List Char) :
        (openTag? (rest.map Char.toLower)).isSome = (openTag? rest).isSome := by
      rw [openTag?_map_toLower]
    rw [templateLength, Text.offsetOf?, offsetFrom?_map_toLower hp, List.length_map]
    rfl
  rw [cutTemplate, openTag?_map_toLower, hlength, cutTemplate]

/-! ## Words and operators -/

@[simp] theorem wordType_map_toLower (nameExpected : Bool) (word : List Char) :
    wordType nameExpected (word.map Char.toLower) = wordType nameExpected word := by
  have hword : Keyword.ofWord? (String.ofList (word.map Char.toLower)) =
      Keyword.ofWord? (String.ofList word) := by
    have hlower : Char.toLower ∘ Char.toLower = Char.toLower := funext toLower_toLower
    simp only [Keyword.ofWord?, String.toList_ofList, List.map_map, hlower]
  rw [wordType, hword, wordType]

/-- Operators are spelled without letters, so a text with a letter is none in either case. -/
@[simp] theorem ofSymbol?_map_toLower (t : List Char) :
    Operator.ofSymbol? (String.ofList (t.map Char.toLower)) =
      Operator.ofSymbol? (String.ofList t) := by
  have hnone {u : List Char} (hu : u.any Char.isAlpha = true) :
      Operator.ofSymbol? (String.ofList u) = none := by
    cases hsymbol : Operator.ofSymbol? (String.ofList u) with
    | none => rfl
    | some o =>
        have hletters := Operator.of_isSymbol (p := fun t => !t.any Char.isAlpha) ⟨o, hsymbol⟩
          (by decide)
        rw [hu] at hletters
        cases hletters
  cases hletter : t.any Char.isAlpha with
  | false => rw [(map_toLower_eq_iff hletter).2 rfl]
  | true =>
      have hlower : (t.map Char.toLower).any Char.isAlpha = true := by
        have hcomp : Char.isAlpha ∘ Char.toLower = Char.isAlpha := funext isAlpha_toLower
        rw [List.any_map, hcomp, hletter]
      rw [hnone hletter, hnone hlower]

@[simp] theorem leading?_map_toLower (cs : List Char) :
    Operator.leading? (cs.map Char.toLower) = Operator.leading? cs := by
  have hhead (n : Nat) : Operator.ofHead? n (cs.map Char.toLower) = Operator.ofHead? n cs := by
    simp only [Operator.ofHead?, ← List.map_take, List.length_map, ofSymbol?_map_toLower]
  simp only [Operator.leading?, hhead]

/-! ## Code -/

@[simp] theorem cutComment_map_toLower [Limits] (type : TokenType) (n : Nat) (cs : List Char) :
    cutComment type n (cs.map Char.toLower) = cutComment type n cs := by
  simp only [cutComment, ← List.map_take, byteLength_map_toLower]

@[simp] theorem cutBlockComment_map_toLower [Limits] (pos : Position) (cs : List Char) :
    cutBlockComment pos (cs.map Char.toLower) = cutBlockComment pos cs := by
  simp only [cutBlockComment, blockCommentLength?_map_toLower, isDocComment_map_toLower,
    cutComment_map_toLower]

@[simp] theorem cutString_map_toLower [Limits] (pos : Position) (n? : Option Nat) (cs : List Char) :
    cutString pos n? (cs.map Char.toLower) = cutString pos n? cs := by
  simp only [cutString, ← List.map_take, byteLength_map_toLower]

@[simp] theorem cutVariable_map_toLower [Limits] (cs : List Char) :
    cutVariable (cs.map Char.toLower) = cutVariable cs := by
  simp only [cutVariable, ← List.map_drop, takeWhile_map_toLower isNameChar_toLower,
    byteLength_map_toLower, List.length_map]

@[simp] theorem cutWord_map_toLower [Limits] (nameExpected : Bool) (cs : List Char) :
    cutWord nameExpected (cs.map Char.toLower) = cutWord nameExpected cs := by
  simp only [cutWord, takeWhile_map_toLower isNameChar_toLower, wordType_map_toLower,
    byteLength_map_toLower, List.length_map]

theorem cutMark_map_toLower {c : Char} (hc : c.isAlpha = false) (pos : Position) (cs : List Char) :
    cutMark pos c (cs.map Char.toLower) = cutMark pos c cs := by
  have hleading := leading?_map_toLower (c :: cs)
  rw [List.map_cons, toLower_eq_self hc] at hleading
  simp only [cutMark, hleading]

theorem heredocHeader?_map_toLower {cs : List Char} (h : ¬ ['<', '<', '<'] <+: cs) :
    heredocHeader? (cs.map Char.toLower) = none := by
  rw [heredocHeader?]
  intro after heq
  obtain ⟨cs₁, rfl, h₁⟩ := eq_cons_of_map_toLower (by decide) heq
  obtain ⟨cs₂, rfl, h₂⟩ := eq_cons_of_map_toLower (by decide) h₁
  obtain ⟨cs₃, rfl, -⟩ := eq_cons_of_map_toLower (by decide) h₂
  exact h ⟨cs₃, rfl⟩

theorem IsMark.isAlpha_eq_false {c : Char} {cs : List Char} (h : IsMark c cs) :
    c.isAlpha = false := by
  have hname := h.not_name
  rw [← Bool.not_eq_true, isNameStart_iff] at hname
  rw [← Bool.not_eq_true, isAlpha_iff]
  omega

theorem IsMark.map_toLower {c : Char} {cs : List Char} (h : IsMark c cs)
    (hopen : ¬ ['<', '<', '<'] <+: c :: cs) : IsMark c (cs.map Char.toLower) where
  not_close := by
    rw [head?_map_toLower_eq_iff (by decide)]
    exact h.not_close
  not_blank := h.not_blank
  ne_hash := h.ne_hash
  not_comment := by
    rw [head?_map_toLower_eq_iff (by decide), head?_map_toLower_eq_iff (by decide)]
    exact h.not_comment
  not_variable := by
    rw [any_head?_map_toLower isNameStart_toLower]
    exact h.not_variable
  not_name := h.not_name
  ne_separator := h.ne_separator
  not_number := by
    rw [any_head?_map_toLower isDigit_toLower]
    exact h.not_number
  not_quote := h.not_quote
  not_heredoc := by
    have hheader := heredocHeader?_map_toLower hopen
    rwa [List.map_cons, toLower_eq_self h.isAlpha_eq_false] at hheader

/-- The rule that applies to a text applies to the lowered text, to the same effect. -/
theorem CodeRule.map_toLower [Limits] {pos : Position} {nameExpected : Bool} {c : Char}
    {cs : List Char} {r : Except LexError Cut} (h : CodeRule pos nameExpected c cs r)
    (hopen : ¬ ['<', '<', '<'] <+: c :: cs) :
    CodeRule pos nameExpected c.toLower (cs.map Char.toLower) r := by
  cases h with
  | @closeTag after hc hcs =>
      subst hc hcs
      rw [← lineBreakLength_map_toLower after]
      exact .closeTag rfl rfl
  | blanks hc =>
      rw [← runLength_map_toLower isBlank_toLower]
      exact .blanks ((isBlank_toLower c).trans hc)
  | hashComment hc =>
      rw [← lineCommentLength_map_toLower, ← cutComment_map_toLower]
      exact .hashComment (by rw [hc]; rfl)
  | slashComment hc hcs =>
      rw [← lineCommentLength_map_toLower, ← cutComment_map_toLower]
      exact .slashComment (by rw [hc]; rfl) ((head?_map_toLower_eq_iff (by decide)).2 hcs)
  | blockComment hc hcs =>
      rw [← cutBlockComment_map_toLower]
      exact .blockComment (by rw [hc]; rfl) ((head?_map_toLower_eq_iff (by decide)).2 hcs)
  | variableName hc hcs =>
      rw [← cutVariable_map_toLower]
      have hname := (any_head?_map_toLower isNameStart_toLower cs).trans hcs
      exact .variableName (by rw [hc]; rfl) hname
  | word hc =>
      rw [← cutWord_map_toLower]
      exact .word ((isNameStart_toLower c).trans hc)
  | separator hc => exact .separator (by rw [hc]; rfl)
  | number hc =>
      rw [← number_map_toLower]
      refine .number ?_
      rwa [isDigit_toLower, toLower_eq_iff (by decide), any_head?_map_toLower isDigit_toLower]
  | quoted hc =>
      have hletter : c.isAlpha = false := by rcases hc with rfl | rfl <;> rfl
      have hlength : quotedLength? ((c :: cs).map Char.toLower) = quotedLength? (c :: cs) := by
        rw [List.map_cons, toLower_eq_self hletter]
        exact quotedFrom?_map_toLower hletter 1 cs
      rw [← hlength, ← cutString_map_toLower]
      exact .quoted (by rwa [toLower_eq_self hletter])
  | heredoc hheader =>
      obtain ⟨rfl, after, rfl⟩ := head_of_heredocHeader? hheader
      exact absurd ⟨after, rfl⟩ hopen
  | mark hmark =>
      have hletter := hmark.isAlpha_eq_false
      rw [← cutMark_map_toLower hletter, toLower_eq_self hletter]
      exact .mark (hmark.map_toLower hopen)

end PhpTokens.Lexer
