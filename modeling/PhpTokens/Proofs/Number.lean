import PhpTokens.Lexer.Number
import PhpTokens.Proofs.CharClass
import PhpTokens.Proofs.LongestMatch

/-!
# Numbers are the longest match of a grammar

`number` measures a number in steps: the base, or else the digits before the
point, the point with the digits behind it, and the exponent, where each step
gives up what it has looked at if its digits are missing. The grammar says what
comes out: digits with single underscores between them, such digits behind a
base, around a point, or behind an exponent. `number_spec` says that of all
heads of a text in the grammar the measured one is the longest.

The steps cannot disagree about where the next one begins. A head in the grammar
that goes on with a point has taken all the digits before it, and one that goes
on with an exponent has taken the whole number before that
(`IsMantissa.length_eq`), because neither a point nor a letter can stand inside.
-/

namespace PhpTokens.Lexer

/-- Digits of a class, with single underscores between them. -/
inductive IsDigits (isDigit : Char → Bool) : List Char → Prop where
  | single {c : Char} (hc : isDigit c = true) : IsDigits isDigit [c]
  | digit {c : Char} {cs : List Char} (hc : isDigit c = true) (h : IsDigits isDigit cs) :
      IsDigits isDigit (c :: cs)
  | underscore {c : Char} {cs : List Char} (hc : isDigit c = true) (h : IsDigits isDigit cs) :
      IsDigits isDigit (c :: '_' :: cs)

/-- Integers with an announced base. -/
inductive IsBased : List Char → Prop where
  | hex {c : Char} {ds : List Char} (hc : c = 'x' ∨ c = 'X') (h : IsDigits isHexDigit ds) :
      IsBased ('0' :: c :: ds)
  | binary {c : Char} {ds : List Char} (hc : c = 'b' ∨ c = 'B') (h : IsDigits isBinaryDigit ds) :
      IsBased ('0' :: c :: ds)
  | octal {c : Char} {ds : List Char} (hc : c = 'o' ∨ c = 'O') (h : IsDigits isOctalDigit ds) :
      IsBased ('0' :: c :: ds)

/-- Numbers with a point, which has digits on at least one of its sides. -/
inductive IsPointed : List Char → Prop where
  | mk {whole fraction : List Char} (hwhole : whole = [] ∨ IsDigits Char.isDigit whole)
      (hfraction : fraction = [] ∨ IsDigits Char.isDigit fraction)
      (hside : whole ≠ [] ∨ fraction ≠ []) : IsPointed (whole ++ '.' :: fraction)

/-- What an exponent may follow: digits, with or without a point. -/
def IsMantissa (t : List Char) : Prop := IsDigits Char.isDigit t ∨ IsPointed t

/-- Exponents, from their letter on. -/
inductive IsExponent : List Char → Prop where
  | mk {letter : Char} {sign ds : List Char} (hletter : letter = 'e' ∨ letter = 'E')
      (hsign : sign = [] ∨ sign = ['+'] ∨ sign = ['-']) (hds : IsDigits Char.isDigit ds) :
      IsExponent (letter :: (sign ++ ds))

/-- Numbers with an exponent. -/
inductive IsScaled : List Char → Prop where
  | mk {mantissa exponent : List Char} (hmantissa : IsMantissa mantissa)
      (hexponent : IsExponent exponent) : IsScaled (mantissa ++ exponent)

/-- Numbers without a base. -/
def IsDecimal (t : List Char) : Prop := IsMantissa t ∨ IsScaled t

/-- The numbers of each type. -/
inductive IsNumber : TokenType → List Char → Prop where
  | digits {t : List Char} (h : IsDigits Char.isDigit t) : IsNumber .integerLiteral t
  | based {t : List Char} (h : IsBased t) : IsNumber .integerLiteral t
  | pointed {t : List Char} (h : IsPointed t) : IsNumber .floatLiteral t
  | scaled {t : List Char} (h : IsScaled t) : IsNumber .floatLiteral t

/-- The numbers of any type. -/
def IsNumeral (t : List Char) : Prop := ∃ type, IsNumber type t

/-! ## Digits -/

namespace IsDigits

variable {isDigit : Char → Bool}

theorem exists_cons {x : List Char} (h : IsDigits isDigit x) :
    ∃ c cs, x = c :: cs ∧ isDigit c = true := by
  cases h with
  | single hc => exact ⟨_, _, rfl, hc⟩
  | digit hc _ => exact ⟨_, _, rfl, hc⟩
  | underscore hc _ => exact ⟨_, _, rfl, hc⟩

theorem length_pos {x : List Char} (h : IsDigits isDigit x) : 0 < x.length := by
  obtain ⟨c, cs, rfl, -⟩ := h.exists_cons
  exact Nat.succ_pos _

theorem mem {x : List Char} (h : IsDigits isDigit x) :
    ∀ c ∈ x, isDigit c = true ∨ c = '_' := by
  induction h with
  | single hc =>
      intro d hd
      rw [List.mem_singleton.1 hd]
      exact .inl hc
  | digit hc _ ih =>
      intro d hd
      rcases List.mem_cons.1 hd with rfl | hd
      · exact .inl hc
      · exact ih d hd
  | underscore hc _ ih =>
      intro d hd
      rcases List.mem_cons.1 hd with rfl | hd
      · exact .inl hc
      · rcases List.mem_cons.1 hd with rfl | hd
        · exact .inr rfl
        · exact ih d hd

/-- Digits are passed, whatever comes behind them. -/
theorem digitsFrom_append {x : List Char} (h : IsDigits isDigit x) (n : Nat) (y : List Char) :
    digitsFrom isDigit n (x ++ y) = digitsFrom isDigit (n + x.length) y := by
  induction h generalizing n with
  | single hc => rw [List.singleton_append, digitsFrom, if_pos (.inl hc), List.length_singleton]
  | digit hc _ ih =>
      rw [List.cons_append, digitsFrom, if_pos (.inl hc), ih, List.length_cons]
      congr 1
      omega
  | @underscore c cs hc h ih =>
      have hnext : (cs ++ y).head?.any isDigit = true := by
        obtain ⟨d, ds, rfl, hd⟩ := h.exists_cons
        exact hd
      rw [List.cons_append, digitsFrom, if_pos (.inl hc), List.cons_append, digitsFrom,
        if_pos (.inr ⟨rfl, Nat.succ_pos n, hnext⟩), ih, List.length_cons, List.length_cons]
      congr 1
      omega

theorem length_le {x cs : List Char} (h : IsDigits isDigit x) (hx : x <+: cs) :
    x.length ≤ digitsLength isDigit cs := by
  obtain ⟨y, rfl⟩ := hx
  rw [digitsLength, h.digitsFrom_append, Nat.zero_add]
  exact le_digitsFrom isDigit x.length y

/-- Digits end before a character that is neither a digit nor an underscore. -/
theorem digitsLength_append {x y : List Char} (h : IsDigits isDigit x)
    (hy : ∀ c, y.head? = some c → isDigit c = false ∧ c ≠ '_') :
    digitsLength isDigit (x ++ y) = x.length := by
  rw [digitsLength, h.digitsFrom_append, Nat.zero_add]
  cases y with
  | nil => rfl
  | cons c y =>
      obtain ⟨hc, hunder⟩ := hy c rfl
      rw [digitsFrom, if_neg]
      intro hpassed
      rcases hpassed with hpassed | hpassed
      · exact absurd (hc.symm.trans hpassed) (by simp)
      · exact hunder hpassed.1

end IsDigits

theorem digitsLength_eq_zero {isDigit : Char → Bool} {cs : List Char}
    (h : cs.head?.any isDigit = false) : digitsLength isDigit cs = 0 := by
  match cs with
  | [] => rfl
  | c :: cs =>
      have hc : isDigit c = false := h
      rw [digitsLength, digitsFrom, if_neg]
      intro hpassed
      rcases hpassed with hpassed | hpassed
      · exact absurd (hc.symm.trans hpassed) (by simp)
      · exact absurd hpassed.2.1 (Nat.lt_irrefl 0)

/-- Behind a digit the count goes on as far as the digits do. -/
theorem digitsFrom_spec {isDigit : Char → Bool} {n : Nat} (hn : 0 < n) :
    ∀ {c : Char} (cs : List Char), isDigit c = true →
      ∃ ds rest, cs = ds ++ rest ∧ digitsFrom isDigit n cs = n + ds.length ∧
        IsDigits isDigit (c :: ds)
  | c, [], hc => ⟨[], [], rfl, rfl, .single hc⟩
  | c, d :: cs, hc => by
      by_cases hd : isDigit d = true
      · obtain ⟨ds, rest, rfl, hcount, hds⟩ := digitsFrom_spec (Nat.succ_pos n) cs hd
        refine ⟨d :: ds, rest, rfl, ?_, .digit hc hds⟩
        rw [digitsFrom, if_pos (.inl hd), hcount, List.length_cons]
        omega
      · by_cases hunder : d = '_' ∧ cs.head?.any isDigit = true
        · obtain ⟨rfl, hnext⟩ := hunder
          cases cs with
          | nil => cases hnext
          | cons e cs =>
              obtain ⟨ds, rest, rfl, hcount, hds⟩ :=
                digitsFrom_spec (Nat.succ_pos (n + 1)) cs hnext
              refine ⟨'_' :: e :: ds, rest, rfl, ?_, .underscore hc hds⟩
              rw [digitsFrom, if_pos (.inr ⟨rfl, hn, hnext⟩), digitsFrom, if_pos (.inl hnext),
                hcount, List.length_cons, List.length_cons]
              omega
        · refine ⟨[], d :: cs, rfl, ?_, .single hc⟩
          rw [digitsFrom, if_neg]
          · rfl
          · intro hpassed
            rcases hpassed with hpassed | hpassed
            · exact hd hpassed
            · exact hunder ⟨hpassed.1, hpassed.2.2⟩

/-- The digits at the head of a text, if it begins with one, are as many as are
counted. -/
theorem digitsLength_spec (isDigit : Char → Bool) (cs : List Char) :
    ∃ ds rest, cs = ds ++ rest ∧ digitsLength isDigit cs = ds.length ∧
      (ds = [] ∨ IsDigits isDigit ds) := by
  by_cases hhead : cs.head?.any isDigit = true
  · match cs with
    | [] => cases hhead
    | c :: cs =>
        obtain ⟨ds, rest, rfl, hcount, hds⟩ := digitsFrom_spec Nat.one_pos cs hhead
        refine ⟨c :: ds, rest, rfl, ?_, .inr hds⟩
        rw [digitsLength, digitsFrom, if_pos (.inl hhead), hcount, List.length_cons]
        omega
  · exact ⟨[], cs, rfl, digitsLength_eq_zero (eq_false_of_ne_true hhead), .inl rfl⟩

/-! ## The mantissa -/

/-- Length of the point, with the digits behind it, that follows the digits at the
head of a text. -/
def pointLength (cs : List Char) : Nat :=
  fractionLength (0 < digitsLength Char.isDigit cs) (cs.drop (digitsLength Char.isDigit cs))

/-- Length of the digits at the head of a text, with a point among them. -/
def mantissaLength (cs : List Char) : Nat := digitsLength Char.isDigit cs + pointLength cs

theorem pointLength_append {whole rest : List Char}
    (h : digitsLength Char.isDigit (whole ++ rest) = whole.length) :
    pointLength (whole ++ rest) = fractionLength (0 < whole.length) rest := by
  rw [pointLength, h, List.drop_left]

theorem fractionLength_spec (afterDigits : Bool) (cs : List Char) :
    ∃ t rest, cs = t ++ rest ∧ fractionLength afterDigits cs = t.length ∧
      (t = [] ∨
        ∃ ds, t = '.' :: ds ∧ (ds = [] ∧ afterDigits = true ∨ IsDigits Char.isDigit ds)) := by
  unfold fractionLength
  split
  · next cs =>
      obtain ⟨ds, rest, rfl, hlength, hds⟩ := digitsLength_spec Char.isDigit cs
      simp only [hlength]
      split
      · next hside =>
          refine ⟨'.' :: ds, rest, rfl, by rw [List.length_cons]; omega, .inr ⟨ds, rfl, ?_⟩⟩
          rcases hds with rfl | hds
          · exact .inl ⟨rfl, by simpa using hside⟩
          · exact .inr hds
      · exact ⟨[], _, rfl, rfl, .inl rfl⟩
  · exact ⟨[], _, rfl, rfl, .inl rfl⟩

theorem le_fractionLength {afterDigits : Bool} {ds rest : List Char}
    (hds : ds = [] ∨ IsDigits Char.isDigit ds) (hside : afterDigits = true ∨ ds ≠ []) :
    1 + ds.length ≤ fractionLength afterDigits ('.' :: (ds ++ rest)) := by
  have hlength : ds.length ≤ digitsLength Char.isDigit (ds ++ rest) := by
    rcases hds with rfl | hds
    · exact Nat.zero_le _
    · exact hds.length_le (List.prefix_append ds rest)
  have htaken : (afterDigits || decide (0 < digitsLength Char.isDigit (ds ++ rest))) = true := by
    rcases hside with hside | hside
    · rw [hside, Bool.true_or]
    · have := List.length_pos_iff.2 hside
      rw [decide_eq_true (by omega), Bool.or_true]
  rw [fractionLength, if_pos htaken]
  omega

/-- What a number begins with: a digit, or a point and a digit. -/
def OpensNumber (cs : List Char) : Prop :=
  cs.head?.any Char.isDigit = true ∨
    ∃ after, cs = '.' :: after ∧ after.head?.any Char.isDigit = true

theorem opensNumber_cons_iff {c : Char} {cs : List Char} :
    OpensNumber (c :: cs) ↔
      c.isDigit = true ∨ (c = '.' ∧ cs.head?.any Char.isDigit = true) := by
  refine or_congr_right ⟨?_, ?_⟩
  · intro h
    obtain ⟨after, hcs, hafter⟩ := h
    cases hcs
    exact ⟨rfl, hafter⟩
  · intro h
    obtain ⟨rfl, hafter⟩ := h
    exact ⟨cs, rfl, hafter⟩

theorem mantissa_spec {cs : List Char} (h : OpensNumber cs) :
    ∃ t rest, cs = t ++ rest ∧ mantissaLength cs = t.length ∧
      (pointLength cs = 0 ∧ IsDigits Char.isDigit t ∨ pointLength cs ≠ 0 ∧ IsPointed t) := by
  obtain ⟨whole, cs, rfl, hwhole, hdigits⟩ := digitsLength_spec Char.isDigit cs
  have hpoint := pointLength_append hwhole
  obtain ⟨fraction, rest, rfl, hfraction, hshape⟩ := fractionLength_spec (0 < whole.length) cs
  rw [hfraction] at hpoint
  refine ⟨whole ++ fraction, rest, (List.append_assoc _ _ _).symm, ?_, ?_⟩
  · rw [mantissaLength, hwhole, hpoint, List.length_append]
  · rw [hpoint]
    rcases hshape with rfl | ⟨ds, rfl, hds⟩
    · refine .inl ⟨rfl, ?_⟩
      rw [List.append_nil]
      rcases hdigits with rfl | hdigits
      · -- Nothing was counted, although a digit stands first or behind a point.
        rcases h with h | ⟨after, rfl, h⟩
        · match rest, h with
          | c :: rest, hc => exact absurd hwhole (Nat.ne_of_gt (digitsLength_pos hc))
        · match after, h with
          | c :: after, hc => exact absurd hfraction (Nat.ne_of_gt (fractionLength_pos hc))
      · exact hdigits
    · refine .inr ⟨Nat.succ_ne_zero _, .mk hdigits (hds.imp And.left id) ?_⟩
      rcases hds with ⟨-, hside⟩ | hds
      · exact .inl (List.length_pos_iff.1 (by simpa using hside))
      · exact .inr (List.length_pos_iff.1 hds.length_pos)

namespace IsMantissa

theorem mem {x : List Char} (h : IsMantissa x) :
    ∀ c ∈ x, c.isDigit = true ∨ c = '_' ∨ c = '.' := by
  have hdigits : ∀ {ds : List Char}, ds = [] ∨ IsDigits Char.isDigit ds →
      ∀ c ∈ ds, c.isDigit = true ∨ c = '_' ∨ c = '.' := by
    intro ds hds c hc
    rcases hds with rfl | hds
    · cases hc
    · exact (hds.mem c hc).imp_right .inl
  intro c hc
  rcases h with h | ⟨hwhole, hfraction, -⟩
  · exact hdigits (.inr h) c hc
  · rcases List.mem_append.1 hc with hc | hc
    · exact hdigits hwhole c hc
    · rcases List.mem_cons.1 hc with rfl | hc
      · exact .inr (.inr rfl)
      · exact hdigits hfraction c hc

theorem length_le {x cs : List Char} (h : IsMantissa x) (hx : x <+: cs) :
    x.length ≤ mantissaLength cs := by
  rcases h with h | ⟨hwhole, hfraction, hside⟩
  · have hlength := h.length_le hx
    rw [mantissaLength]
    omega
  · next whole fraction =>
      obtain ⟨rest, rfl⟩ := hx
      rw [List.append_assoc, List.cons_append]
      have hcount : digitsLength Char.isDigit (whole ++ '.' :: (fraction ++ rest)) =
          whole.length := by
        rcases hwhole with rfl | hwhole
        · exact digitsLength_eq_zero rfl
        · refine hwhole.digitsLength_append fun c hc => ?_
          cases hc
          decide
      have hpoint : 1 + fraction.length ≤
          fractionLength (0 < whole.length) ('.' :: (fraction ++ rest)) :=
        le_fractionLength hfraction
          (hside.imp_left fun hne => by simpa using List.length_pos_iff.2 hne)
      rw [mantissaLength, hcount, pointLength_append hcount, List.length_append, List.length_cons]
      omega

/-- A mantissa before an exponent is all that there is. -/
theorem length_eq {x e cs : List Char} (h : IsMantissa x) (he : IsExponent e) (hx : x ++ e <+: cs)
    (hopens : OpensNumber cs) : x.length = mantissaLength cs := by
  obtain ⟨t, rest, rfl, hcount, hshape⟩ := mantissa_spec hopens
  have ht : IsMantissa t := hshape.imp And.right And.right
  have hxt := (List.prefix_append x e).trans hx
  have hle := h.length_le hxt
  rw [hcount] at hle ⊢
  refine Nat.le_antisymm hle (Nat.le_of_not_lt fun hlt => ?_)
  -- Otherwise the letter of the exponent is a character of the longer one.
  obtain ⟨y, rfl⟩ := List.prefix_of_prefix_length_le hxt (List.prefix_append t rest) hle
  cases he with
  | @mk letter sign ds hletter _ _ =>
      rw [List.append_assoc] at hx
      have hy := (List.prefix_append_right_inj x).1 hx
      match y with
      | [] =>
          rw [List.append_nil] at hlt
          exact absurd hlt (Nat.lt_irrefl _)
      | c :: y =>
          obtain rfl : letter = c := (List.cons_prefix_cons.1 hy).1
          have hmem := ht.mem letter (by simp)
          rcases hletter with rfl | rfl
          · exact absurd hmem (by decide)
          · exact absurd hmem (by decide)

end IsMantissa

/-! ## The exponent -/

theorem signedLength_of_isDigit {cs : List Char} (h : cs.head?.any Char.isDigit = true) :
    signedLength cs = digitsLength Char.isDigit cs := by
  match cs, h with
  | c :: cs, h =>
      have hc : c.isDigit = true := h
      have hplus : c ≠ '+' := ne_of_class hc (by decide)
      have hminus : c ≠ '-' := ne_of_class hc (by decide)
      simp [signedLength, hplus, hminus]

theorem signedLength_cons {sign : Char} (h : sign = '+' ∨ sign = '-') (cs : List Char) :
    signedLength (sign :: cs) =
      if 0 < digitsLength Char.isDigit cs then 1 + digitsLength Char.isDigit cs else 0 := by
  rcases h with rfl | rfl <;> rfl

theorem signedLength_spec {cs : List Char} (h : 0 < signedLength cs) :
    ∃ sign ds rest, cs = sign ++ (ds ++ rest) ∧ signedLength cs = sign.length + ds.length ∧
      (sign = [] ∨ sign = ['+'] ∨ sign = ['-']) ∧ IsDigits Char.isDigit ds := by
  by_cases hsign : ∃ sign after, cs = sign :: after ∧ (sign = '+' ∨ sign = '-')
  · obtain ⟨sign, after, rfl, hsign⟩ := hsign
    obtain ⟨ds, rest, rfl, hlength, hds⟩ := digitsLength_spec Char.isDigit after
    rw [signedLength_cons hsign, hlength] at h ⊢
    rcases hds with rfl | hds
    · cases h
    · refine ⟨[sign], ds, rest, rfl, by rw [if_pos hds.length_pos, List.length_singleton], ?_, hds⟩
      exact .inr (hsign.imp (congrArg (fun c => [c])) (congrArg (fun c => [c])))
  · have hunsigned : signedLength cs = digitsLength Char.isDigit cs := by
      unfold signedLength
      split
      · next after => exact absurd ⟨'+', after, rfl, .inl rfl⟩ hsign
      · next after => exact absurd ⟨'-', after, rfl, .inr rfl⟩ hsign
      · rfl
    obtain ⟨ds, rest, rfl, hlength, hds⟩ := digitsLength_spec Char.isDigit cs
    rw [hunsigned, hlength] at h ⊢
    rcases hds with rfl | hds
    · cases h
    · exact ⟨[], ds, rest, rfl, by rw [List.length_nil, Nat.zero_add], .inl rfl, hds⟩

theorem le_signedLength {sign ds : List Char} (hsign : sign = [] ∨ sign = ['+'] ∨ sign = ['-'])
    (hds : IsDigits Char.isDigit ds) (rest : List Char) :
    sign.length + ds.length ≤ signedLength (sign ++ (ds ++ rest)) := by
  have hle := hds.length_le (List.prefix_append ds rest)
  have hpos := hds.length_pos
  rcases hsign with rfl | rfl | rfl
  · have hhead : (ds ++ rest).head?.any Char.isDigit = true := by
      obtain ⟨c, cs, rfl, hc⟩ := hds.exists_cons
      exact hc
    rw [List.nil_append, signedLength_of_isDigit hhead, List.length_nil]
    omega
  · rw [List.singleton_append, signedLength, if_pos (by omega), List.length_singleton]
    omega
  · rw [List.singleton_append, signedLength, if_pos (by omega), List.length_singleton]
    omega

theorem exponentLength_cons {letter : Char} (h : letter = 'e' ∨ letter = 'E') (cs : List Char) :
    exponentLength (letter :: cs) = if 0 < signedLength cs then 1 + signedLength cs else 0 := by
  rcases h with rfl | rfl <;> rfl

theorem exponentLength_spec (cs : List Char) :
    ∃ t rest, cs = t ++ rest ∧ exponentLength cs = t.length ∧ (t = [] ∨ IsExponent t) := by
  by_cases hletter : ∃ letter after, cs = letter :: after ∧ (letter = 'e' ∨ letter = 'E')
  · obtain ⟨letter, after, rfl, hletter⟩ := hletter
    rw [exponentLength_cons hletter]
    split
    · next hpos =>
        obtain ⟨sign, ds, rest, rfl, hlength, hsign, hds⟩ := signedLength_spec hpos
        refine ⟨letter :: (sign ++ ds), rest, ?_, ?_, .inr (.mk hletter hsign hds)⟩
        · rw [List.cons_append, List.append_assoc]
        · rw [hlength, List.length_cons, List.length_append, Nat.add_comm 1]
    · exact ⟨[], _, rfl, rfl, .inl rfl⟩
  · refine ⟨[], cs, rfl, ?_, .inl rfl⟩
    unfold exponentLength
    split
    · next after => exact absurd ⟨'e', after, rfl, .inl rfl⟩ hletter
    · next after => exact absurd ⟨'E', after, rfl, .inr rfl⟩ hletter
    · rfl

theorem IsExponent.length_le {x cs : List Char} (h : IsExponent x) (hx : x <+: cs) :
    x.length ≤ exponentLength cs := by
  obtain ⟨rest, rfl⟩ := hx
  cases h with
  | @mk letter sign ds hletter hsign hds =>
      have hle := le_signedLength hsign hds rest
      have hpos := hds.length_pos
      rw [List.cons_append, List.append_assoc, exponentLength_cons hletter, if_pos (by omega),
        List.length_cons, List.length_append]
      omega

/-! ## Whole numbers -/

theorem decimalNumber_spec {cs : List Char} (h : OpensNumber cs) :
    ∃ type t, decimalNumber cs = (type, t.length) ∧ IsNumber type t ∧ IsLongest IsDecimal t cs := by
  have hnumber : decimalNumber cs =
      (if pointLength cs = 0 ∧ exponentLength (cs.drop (mantissaLength cs)) = 0 then
        .integerLiteral else .floatLiteral,
        mantissaLength cs + exponentLength (cs.drop (mantissaLength cs))) := rfl
  have hbefore : ∀ {x e}, IsMantissa x → IsExponent e → x ++ e <+: cs →
      x.length = mantissaLength cs := fun hx he hcs => hx.length_eq he hcs h
  obtain ⟨m, after, rfl, hcount, hshape⟩ := mantissa_spec h
  have hm : IsMantissa m := hshape.imp And.right And.right
  obtain ⟨e, rest, rfl, hexponent, he⟩ := exponentLength_spec after
  rw [hcount, List.drop_left, hexponent, ← List.length_append] at hnumber
  refine ⟨_, m ++ e, hnumber, ?_, ?_, ?_, ?_⟩
  · rcases he with rfl | he
    · rw [List.append_nil]
      rcases hshape with ⟨hpoint, hshape⟩ | ⟨hpoint, hshape⟩
      · rw [if_pos ⟨hpoint, List.length_nil⟩]
        exact .digits hshape
      · rw [if_neg fun hzero => hpoint hzero.1]
        exact .pointed hshape
    · rw [if_neg]
      · exact .scaled (.mk hm he)
      · intro hzero
        cases he
        cases hzero.2
  · rw [← List.append_assoc]
    exact List.prefix_append _ rest
  · rcases he with rfl | he
    · rw [List.append_nil]
      exact .inl hm
    · exact .inr (.mk hm he)
  · intro x hx hdecimal
    rcases hdecimal with hx' | hx'
    · have hle := hx'.length_le hx
      rw [hcount] at hle
      rw [List.length_append]
      omega
    · cases hx' with
      | @mk m' e' hm' he' =>
          have hlength := hbefore hm' he' hx
          rw [hcount] at hlength
          obtain ⟨y, hy⟩ := hx
          rw [List.append_assoc] at hy
          obtain ⟨rfl, hrest⟩ := List.append_inj hy hlength
          have hexp : e' <+: e ++ rest := ⟨y, hrest⟩
          have hle := he'.length_le hexp
          rw [hexponent] at hle
          rw [List.length_append, List.length_append]
          omega

theorem isBased_iff {t : List Char} :
    IsBased t ↔
      ∃ c isDigit ds, t = '0' :: c :: ds ∧ baseDigits? c = some isDigit ∧ IsDigits isDigit ds := by
  constructor
  · intro h
    cases h with
    | hex hc hds => rcases hc with rfl | rfl <;> exact ⟨_, _, _, rfl, rfl, hds⟩
    | binary hc hds => rcases hc with rfl | rfl <;> exact ⟨_, _, _, rfl, rfl, hds⟩
    | octal hc hds => rcases hc with rfl | rfl <;> exact ⟨_, _, _, rfl, rfl, hds⟩
  · intro h
    obtain ⟨c, isDigit, ds, rfl, hbase, hds⟩ := h
    unfold baseDigits? at hbase
    split at hbase
    · next hc =>
        cases hbase
        exact .hex hc hds
    · split at hbase
      · next hc =>
          cases hbase
          exact .binary hc hds
      · split at hbase
        · next hc =>
            cases hbase
            exact .octal hc hds
        · cases hbase

theorem basedLength?_eq_some {cs : List Char} {n : Nat} (h : basedLength? cs = some n) :
    ∃ t, n = t.length ∧ IsLongest IsBased t cs := by
  unfold basedLength? at h
  split at h
  · next c cs =>
      simp only [Option.bind_eq_bind, Option.bind_eq_some_iff] at h
      obtain ⟨isDigit, hbase, h⟩ := h
      obtain ⟨ds, rest, rfl, hlength, hds⟩ := digitsLength_spec isDigit cs
      rw [hlength] at h
      rcases hds with rfl | hds
      · cases h
      · rw [if_pos hds.length_pos] at h
        cases h
        refine ⟨'0' :: c :: ds, by simp only [List.length_cons]; omega, ⟨rest, rfl⟩,
          isBased_iff.2 ⟨c, isDigit, ds, rfl, hbase, hds⟩, ?_⟩
        intro x hx hbased
        obtain ⟨c', isDigit', ds', rfl, hbase', hds'⟩ := isBased_iff.1 hbased
        obtain ⟨-, hletter⟩ := List.cons_prefix_cons.1 hx
        obtain ⟨rfl, hds''⟩ := List.cons_prefix_cons.1 hletter
        cases hbase'.symm.trans hbase
        have hle := hds'.length_le hds''
        rw [hlength] at hle
        simp only [List.length_cons]
        omega
  · cases h

theorem basedLength?_eq_none {cs : List Char} (h : basedLength? cs = none) {x : List Char}
    (hx : x <+: cs) : ¬ IsBased x := by
  intro hbased
  obtain ⟨c, isDigit, ds, rfl, hbase, hds⟩ := isBased_iff.1 hbased
  obtain ⟨rest, rfl⟩ := hx
  have hpos := hds.length_pos
  have hle := hds.length_le (List.prefix_append ds rest)
  have hsome : basedLength? ('0' :: c :: ds ++ rest) =
      some (2 + digitsLength isDigit (ds ++ rest)) := by
    simp only [List.cons_append, basedLength?, hbase, Option.bind_eq_bind, Option.bind_some]
    rw [if_pos (by omega)]
  rw [hsome] at h
  cases h

/-- The characters of numbers without a base. -/
def isDecimalChar (c : Char) : Bool :=
  c.isDigit || c == '_' || c == '.' || c == 'e' || c == 'E' || c == '+' || c == '-'

theorem IsDecimal.mem {t : List Char} (h : IsDecimal t) : ∀ c ∈ t, isDecimalChar c = true := by
  have hmantissa : ∀ {m : List Char}, IsMantissa m → ∀ c ∈ m, isDecimalChar c = true := by
    intro m hm c hc
    rcases hm.mem c hc with hc | rfl | rfl
    · simp [isDecimalChar, hc]
    · rfl
    · rfl
  intro c hc
  rcases h with h | ⟨hm, hletter, hsign, hds⟩
  · exact hmantissa h c hc
  · rcases List.mem_append.1 hc with hc | hc
    · exact hmantissa hm c hc
    · rcases List.mem_cons.1 hc with rfl | hc
      · rcases hletter with rfl | rfl <;> rfl
      · rcases List.mem_append.1 hc with hc | hc
        · rcases hsign with rfl | rfl | rfl
          · cases hc
          · rw [List.mem_singleton.1 hc]
            rfl
          · rw [List.mem_singleton.1 hc]
            rfl
        · exact hmantissa (.inl hds) c hc

theorem isDecimalChar_of_baseDigits? {c : Char} {isDigit : Char → Bool}
    (h : baseDigits? c = some isDigit) : isDecimalChar c = false := by
  unfold baseDigits? at h
  split at h
  · next hc => rcases hc with rfl | rfl <;> rfl
  · split at h
    · next hc => rcases hc with rfl | rfl <;> rfl
    · split at h
      · next hc => rcases hc with rfl | rfl <;> rfl
      · cases h

/-- A number without a base does not reach the letter of one. -/
theorem IsDecimal.length_le_one {x ds rest : List Char} {c : Char} {isDigit : Char → Bool}
    (h : IsDecimal x) (hbase : baseDigits? c = some isDigit) (hx : x <+: '0' :: c :: ds ++ rest) :
    x.length ≤ 1 := by
  match x with
  | [] | [_] => simp
  | a :: b :: x =>
      obtain ⟨-, htail⟩ := List.cons_prefix_cons.1 hx
      obtain rfl := (List.cons_prefix_cons.1 htail).1
      have hb := h.mem b (by simp)
      exact absurd (hb.symm.trans (isDecimalChar_of_baseDigits? hbase)) (by simp)

theorem isNumeral_iff {t : List Char} : IsNumeral t ↔ IsDecimal t ∨ IsBased t := by
  constructor
  · intro h
    obtain ⟨type, h⟩ := h
    cases h with
    | digits h => exact .inl (.inl (.inl h))
    | based h => exact .inr h
    | pointed h => exact .inl (.inl (.inr h))
    | scaled h => exact .inl (.inr h)
  · intro h
    rcases h with ((h | h) | h) | h
    · exact ⟨_, .digits h⟩
    · exact ⟨_, .pointed h⟩
    · exact ⟨_, .scaled h⟩
    · exact ⟨_, .based h⟩

/-- The characters of numbers. -/
def isNumberChar (c : Char) : Bool := isDecimalChar c || isHexDigit c || (baseDigits? c).isSome

theorem isHexDigit_of_baseDigits? {c d : Char} {isDigit : Char → Bool}
    (h : baseDigits? c = some isDigit) (hd : isDigit d = true) : isHexDigit d = true := by
  unfold baseDigits? at h
  split at h
  · cases h
    exact hd
  · split at h
    · cases h
      have hbinary : d = '0' ∨ d = '1' := by simpa [isBinaryDigit] using hd
      rcases hbinary with rfl | rfl <;> rfl
    · split at h
      · cases h
        rw [isOctalDigit_iff] at hd
        rw [isHexDigit_iff]
        omega
      · cases h

theorem IsNumeral.mem {t : List Char} (h : IsNumeral t) : ∀ c ∈ t, isNumberChar c = true := by
  intro d hd
  rcases isNumeral_iff.1 h with h | h
  · simp [isNumberChar, h.mem d hd]
  · obtain ⟨c, isDigit, ds, rfl, hbase, hds⟩ := isBased_iff.1 h
    rcases List.mem_cons.1 hd with rfl | hd
    · rfl
    · rcases List.mem_cons.1 hd with rfl | hd
      · simp [isNumberChar, hbase]
      · rcases hds.mem d hd with hd | rfl
        · simp [isNumberChar, isHexDigit_of_baseDigits? hbase hd]
        · rfl

/-- The measured number is the longest head of the text in the grammar. -/
theorem number_spec {cs : List Char} (h : OpensNumber cs) :
    ∃ type t, number cs = (type, t.length) ∧ IsNumber type t ∧ IsLongest IsNumeral t cs := by
  cases hbased : basedLength? cs with
  | some n =>
      obtain ⟨t, rfl, hlongest⟩ := basedLength?_eq_some hbased
      refine ⟨.integerLiteral, t, by rw [number, hbased], .based hlongest.holds, hlongest.head,
        isNumeral_iff.2 (.inr hlongest.holds), ?_⟩
      intro x hx hnumeral
      rcases isNumeral_iff.1 hnumeral with hx' | hx'
      · obtain ⟨c, isDigit, ds, rfl, hbase, -⟩ := isBased_iff.1 hlongest.holds
        obtain ⟨rest, rfl⟩ := hlongest.head
        exact Nat.le_trans (hx'.length_le_one hbase hx) (by simp)
      · exact hlongest.length_le x hx hx'
  | none =>
      obtain ⟨type, t, hnumber, htype, hlongest⟩ := decimalNumber_spec h
      refine ⟨type, t, by rw [number, hbased, hnumber], htype, hlongest.head, ⟨type, htype⟩, ?_⟩
      intro x hx hnumeral
      rcases isNumeral_iff.1 hnumeral with hx' | hx'
      · exact hlongest.length_le x hx hx'
      · exact absurd hx' (basedLength?_eq_none hbased hx)

/-- Digits have neither a point nor a letter among them. -/
theorem IsDigits.not_isFloat {t : List Char} (h : IsDigits Char.isDigit t) :
    ¬ IsNumber .floatLiteral t := by
  intro hfloat
  cases hfloat with
  | pointed hfloat =>
      cases hfloat with
      | mk _ _ _ => exact absurd (h.mem '.' (by simp)) (by decide)
  | scaled hfloat =>
      obtain ⟨-, hletter, -, -⟩ := hfloat
      rcases hletter with rfl | rfl
      · exact absurd (h.mem 'e' (by simp)) (by decide)
      · exact absurd (h.mem 'E' (by simp)) (by decide)

theorem IsBased.not_isFloat {t : List Char} (h : IsBased t) : ¬ IsNumber .floatLiteral t := by
  intro hfloat
  have hdecimal : IsDecimal t := by
    cases hfloat with
    | pointed hfloat => exact .inl (.inr hfloat)
    | scaled hfloat => exact .inr hfloat
  obtain ⟨c, isDigit, ds, rfl, hbase, -⟩ := isBased_iff.1 h
  have hlength := hdecimal.length_le_one hbase (List.prefix_append _ [])
  simp only [List.length_cons] at hlength
  omega

theorem IsNumber.type_unique {type type' : TokenType} {t : List Char} (h : IsNumber type t)
    (h' : IsNumber type' t) : type = type' := by
  have hinteger : IsNumber .integerLiteral t → ¬ IsNumber .floatLiteral t := by
    intro hinteger
    cases hinteger with
    | digits h => exact h.not_isFloat
    | based h => exact h.not_isFloat
  have htype : ∀ {type : TokenType}, IsNumber type t →
      type = .integerLiteral ∨ type = .floatLiteral := by
    intro type h
    cases h <;> simp
  rcases htype h with rfl | rfl
  · rcases htype h' with rfl | rfl
    · rfl
    · exact absurd h' (hinteger h)
  · rcases htype h' with rfl | rfl
    · exact absurd h (hinteger h')
    · rfl

theorem number_eq_iff {cs : List Char} {type : TokenType} {n : Nat} (h : OpensNumber cs) :
    number cs = (type, n) ↔
      ∃ t, n = t.length ∧ IsNumber type t ∧ IsLongest IsNumeral t cs := by
  obtain ⟨type', t', hnumber, htype', hlongest'⟩ := number_spec h
  rw [hnumber]
  constructor
  · intro heq
    cases heq
    exact ⟨t', rfl, htype', hlongest'⟩
  · intro hshape
    obtain ⟨t, rfl, htype, hlongest⟩ := hshape
    obtain rfl := hlongest.unique hlongest'
    rw [htype.type_unique htype']

end PhpTokens.Lexer
