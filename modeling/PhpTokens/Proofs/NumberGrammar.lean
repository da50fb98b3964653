import Mathlib.Computability.RegularExpressions
import PhpTokens.Proofs.Number
import PhpTokens.Text.Bytes

/-!
# The grammar of numbers as regular expressions

`IsNumber` gives the numbers by inductive rules, which is the form that the
proofs about `number` want. A manual gives them by regular expressions over
four alphabets, with one expression for each kind of number. Here are those
expressions, and each has the words of its rules (`mem_whole`, `mem_pointed`,
`mem_scaled`, `mem_based`).

The one expression whose shape differs from its rule is that of the digits. The
expression takes them run by run, with an underscore before every run but the
first; the rule takes them one by one, and an underscore with the digit before
it. `mem_separated` carries the one into the other by induction over the runs,
and back by induction over the digits.
-/

namespace PhpTokens.Lexer

namespace Grammar

/-- One of some characters. -/
def oneOf : List Char → RegularExpression Char
  | [] => 0
  | c :: cs => .char c + oneOf cs

def oneOrMore (r : RegularExpression Char) : RegularExpression Char := r * r.star

def optional (r : RegularExpression Char) : RegularExpression Char := 1 + r

def decimalDigits : List Char := ['0', '1', '2', '3', '4', '5', '6', '7', '8', '9']

def hexDigits : List Char :=
  decimalDigits ++ ['a', 'b', 'c', 'd', 'e', 'f', 'A', 'B', 'C', 'D', 'E', 'F']

def octalDigits : List Char := ['0', '1', '2', '3', '4', '5', '6', '7']

def binaryDigits : List Char := ['0', '1']

/-- Runs of digits, with an underscore between two runs. -/
def separated (alphabet : List Char) : RegularExpression Char :=
  oneOrMore (oneOf alphabet) * .star (.char '_' * oneOrMore (oneOf alphabet))

/-- Decimal digits. -/
def whole : RegularExpression Char := separated decimalDigits

/-- A point, with digits before it or behind it or on both sides. -/
def pointed : RegularExpression Char :=
  optional whole * (.char '.' * whole) + whole * (.char '.' * optional whole)

/-- A number with an exponent. -/
def scaled : RegularExpression Char :=
  (whole + pointed) * (oneOf ['e', 'E'] * (optional (oneOf ['+', '-']) * whole))

/-- Digits to a base that a letter announces. -/
def announced (letters alphabet : List Char) : RegularExpression Char :=
  .char '0' * (oneOf letters * separated alphabet)

/-- Integers with an announced base. -/
def based : RegularExpression Char :=
  announced ['x', 'X'] hexDigits + (announced ['b', 'B'] binaryDigits +
    announced ['o', 'O'] octalDigits)

/-- Numbers. -/
def numeral : RegularExpression Char := whole + (pointed + (scaled + based))

/-! ## Words -/

theorem mem_oneOf {cs t : List Char} : t ∈ (oneOf cs).matches' ↔ ∃ c ∈ cs, t = [c] := by
  induction cs with
  | nil => exact ⟨fun h => absurd h (Language.notMem_zero t), fun h => by simp at h⟩
  | cons c cs ih =>
      have hcons : t ∈ (oneOf (c :: cs)).matches' ↔ t = [c] ∨ t ∈ (oneOf cs).matches' := Iff.rfl
      rw [hcons, ih]
      simp

theorem mem_optional {r : RegularExpression Char} {t : List Char} :
    t ∈ (optional r).matches' ↔ t = [] ∨ t ∈ r.matches' := Iff.rfl

theorem mem_add {r s : RegularExpression Char} {t : List Char} :
    t ∈ (r + s).matches' ↔ t ∈ r.matches' ∨ t ∈ s.matches' := Iff.rfl

theorem mem_mul {r s : RegularExpression Char} {t : List Char} :
    t ∈ (r * s).matches' ↔ ∃ x y, t = x ++ y ∧ x ∈ r.matches' ∧ y ∈ s.matches' := by
  rw [RegularExpression.matches'_mul, Language.mem_mul]
  constructor
  · intro h
    obtain ⟨x, hx, y, hy, rfl⟩ := h
    exact ⟨x, y, rfl, hx, hy⟩
  · intro h
    obtain ⟨x, y, rfl, hx, hy⟩ := h
    exact ⟨x, hx, y, hy, rfl⟩

theorem mem_char_mul {c : Char} {r : RegularExpression Char} {t : List Char} :
    t ∈ (.char c * r : RegularExpression Char).matches' ↔ ∃ y, t = c :: y ∧ y ∈ r.matches' := by
  rw [mem_mul]
  constructor
  · intro h
    obtain ⟨x, y, rfl, hx, hy⟩ := h
    obtain rfl : x = [c] := hx
    exact ⟨y, rfl, hy⟩
  · intro h
    obtain ⟨y, rfl, hy⟩ := h
    exact ⟨[c], y, rfl, rfl, hy⟩

theorem mem_oneOf_mul {cs : List Char} {r : RegularExpression Char} {t : List Char} :
    t ∈ (oneOf cs * r).matches' ↔ ∃ c y, t = c :: y ∧ c ∈ cs ∧ y ∈ r.matches' := by
  rw [mem_mul]
  constructor
  · intro h
    obtain ⟨x, y, rfl, hx, hy⟩ := h
    obtain ⟨c, hc, rfl⟩ := mem_oneOf.1 hx
    exact ⟨c, y, rfl, hc, hy⟩
  · intro h
    obtain ⟨c, y, rfl, hc, hy⟩ := h
    exact ⟨[c], y, rfl, mem_oneOf.2 ⟨c, hc, rfl⟩, hy⟩

theorem append_mem_star {r : RegularExpression Char} {x y : List Char} (hx : x ∈ r.matches')
    (hy : y ∈ r.star.matches') : x ++ y ∈ r.star.matches' := by
  obtain ⟨blocks, rfl, hblocks⟩ := Language.mem_kstar.1 hy
  exact Language.mem_kstar.2
    ⟨x :: blocks, List.flatten_cons.symm, List.forall_mem_cons.2 ⟨hx, hblocks⟩⟩

/-- A word of a repetition is empty or begins with a word of what is repeated. -/
theorem star_induction {r : RegularExpression Char} {P : List Char → Prop} (hnil : P [])
    (happend : ∀ x y, x ∈ r.matches' → P y → P (x ++ y)) {w : List Char}
    (hw : w ∈ r.star.matches') : P w := by
  obtain ⟨blocks, rfl, hblocks⟩ := Language.mem_kstar.1 hw
  induction blocks with
  | nil => exact hnil
  | cons block blocks ih =>
      obtain ⟨hblock, hrest⟩ := List.forall_mem_cons.1 hblocks
      rw [List.flatten_cons]
      exact happend _ _ hblock (ih hrest (Language.join_mem_kstar hrest))

theorem mem_star_oneOf {cs t : List Char} :
    t ∈ (oneOf cs).star.matches' ↔ ∀ c ∈ t, c ∈ cs := by
  constructor
  · intro h
    refine star_induction (P := fun t => ∀ c ∈ t, c ∈ cs) (by simp) ?_ h
    intro x y hx hy
    obtain ⟨c, hc, rfl⟩ := mem_oneOf.1 hx
    exact List.forall_mem_cons.2 ⟨hc, hy⟩
  · intro h
    induction t with
    | nil => exact Language.nil_mem_kstar _
    | cons c t ih =>
        obtain ⟨hc, ht⟩ := List.forall_mem_cons.1 h
        exact append_mem_star (mem_oneOf.2 ⟨c, hc, rfl⟩) (ih ht)

/-- A run has a first digit and perhaps more. -/
theorem mem_oneOrMore_oneOf {cs t : List Char} :
    t ∈ (oneOrMore (oneOf cs)).matches' ↔ ∃ c u, t = c :: u ∧ c ∈ cs ∧ ∀ d ∈ u, d ∈ cs := by
  simp only [oneOrMore, mem_oneOf_mul, mem_star_oneOf]

end Grammar

/-! ## Digits -/

namespace IsDigits

variable {isDigit : Char → Bool} {c : Char} {u : List Char}

theorem of_run (hc : isDigit c = true) (hu : ∀ d ∈ u, isDigit d = true) :
    IsDigits isDigit (c :: u) := by
  induction u generalizing c with
  | nil => exact .single hc
  | cons d u ih =>
      obtain ⟨hd, hu⟩ := List.forall_mem_cons.1 hu
      exact .digit hc (ih hd hu)

theorem of_run_append {z : List Char} (hc : isDigit c = true) (hu : ∀ d ∈ u, isDigit d = true)
    (hz : IsDigits isDigit z) : IsDigits isDigit (c :: (u ++ '_' :: z)) := by
  induction u generalizing c with
  | nil => exact .underscore hc hz
  | cons d u ih =>
      obtain ⟨hd, hu⟩ := List.forall_mem_cons.1 hu
      exact .digit hc (ih hd hu)

end IsDigits

namespace Grammar

theorem mem_separated_iff {alphabet t : List Char} :
    t ∈ (separated alphabet).matches' ↔
      ∃ c u w, t = c :: (u ++ w) ∧ c ∈ alphabet ∧ (∀ d ∈ u, d ∈ alphabet) ∧
        w ∈ (RegularExpression.star (.char '_' * oneOrMore (oneOf alphabet))).matches' := by
  simp only [separated, mem_mul, mem_oneOrMore_oneOf]
  constructor
  · intro h
    obtain ⟨_, w, rfl, ⟨c, u, rfl, hc, hu⟩, hw⟩ := h
    exact ⟨c, u, w, rfl, hc, hu, hw⟩
  · intro h
    obtain ⟨c, u, w, rfl, hc, hu, hw⟩ := h
    exact ⟨c :: u, w, rfl, ⟨c, u, rfl, hc, hu⟩, hw⟩

theorem mem_separated {alphabet t : List Char} {isDigit : Char → Bool}
    (halphabet : ∀ c, c ∈ alphabet ↔ isDigit c = true) :
    t ∈ (separated alphabet).matches' ↔ IsDigits isDigit t := by
  rw [mem_separated_iff]
  simp only [halphabet]
  constructor
  · intro h
    obtain ⟨c, u, w, rfl, hc, hu, hw⟩ := h
    -- Over the runs behind the first one: whatever run stands before them, all are digits.
    refine star_induction (P := fun w => ∀ c u, isDigit c = true → (∀ d ∈ u, isDigit d = true) →
      IsDigits isDigit (c :: (u ++ w))) ?_ ?_ hw c u hc hu
    · intro c u hc hu
      rw [List.append_nil]
      exact .of_run hc hu
    · intro x y hx ih c u hc hu
      obtain ⟨_, rfl, hrun⟩ := mem_char_mul.1 hx
      obtain ⟨c', u', rfl, hc', hu'⟩ := mem_oneOrMore_oneOf.1 hrun
      simp only [halphabet] at hc' hu'
      exact .of_run_append hc hu (ih c' u' hc' hu')
  · intro h
    induction h with
    | @single c hc => exact ⟨c, [], [], rfl, hc, by simp, Language.nil_mem_kstar _⟩
    | @digit c cs hc _ ih =>
        obtain ⟨d, u, w, rfl, hd, hu, hw⟩ := ih
        exact ⟨c, d :: u, w, rfl, hc, List.forall_mem_cons.2 ⟨hd, hu⟩, hw⟩
    | @underscore c cs hc _ ih =>
        obtain ⟨d, u, w, rfl, hd, hu, hw⟩ := ih
        have hrun : '_' :: d :: u ∈ (.char '_' * oneOrMore (oneOf alphabet) :
            RegularExpression Char).matches' := by
          refine mem_char_mul.2 ⟨d :: u, rfl, mem_oneOrMore_oneOf.2 ⟨d, u, rfl, ?_⟩⟩
          simp only [halphabet]
          exact ⟨hd, hu⟩
        exact ⟨c, [], '_' :: d :: u ++ w, rfl, hc, by simp, append_mem_star hrun hw⟩

/-! ## The alphabets -/

/-- What has the characters of a range of code points has those that lie in it. -/
theorem mem_of_range (first n : Nat) {cs : List Char} {c : Char}
    (hrange : (List.range n).all (fun k => cs.contains (Char.ofNat (first + k))) = true)
    (hfirst : first ≤ c.toNat) (hlast : c.toNat < first + n) : c ∈ cs := by
  have hk : c.toNat - first ∈ List.range n := List.mem_range.2 (by omega)
  have hmem := List.all_eq_true.1 hrange _ hk
  rw [Nat.add_sub_cancel' hfirst, Char.ofNat_toNat] at hmem
  exact List.contains_iff_mem.1 hmem

theorem mem_decimalDigits (c : Char) : c ∈ decimalDigits ↔ c.isDigit = true := by
  constructor
  · intro h
    exact List.all_eq_true.1 (by decide : decimalDigits.all Char.isDigit = true) c h
  · intro h
    rw [isDigit_iff] at h
    exact mem_of_range 48 10 (by decide) h.1 (by omega)

theorem mem_hexDigits (c : Char) : c ∈ hexDigits ↔ isHexDigit c = true := by
  constructor
  · intro h
    exact List.all_eq_true.1 (by decide : hexDigits.all isHexDigit = true) c h
  · intro h
    rw [isHexDigit_iff] at h
    rcases h with h | h | h
    · exact mem_of_range 48 10 (by decide) h.1 (by omega)
    · exact mem_of_range 97 6 (by decide) h.1 (by omega)
    · exact mem_of_range 65 6 (by decide) h.1 (by omega)

theorem mem_octalDigits (c : Char) : c ∈ octalDigits ↔ isOctalDigit c = true := by
  constructor
  · intro h
    exact List.all_eq_true.1 (by decide : octalDigits.all isOctalDigit = true) c h
  · intro h
    rw [isOctalDigit_iff] at h
    exact mem_of_range 48 8 (by decide) h.1 (by omega)

theorem mem_binaryDigits (c : Char) : c ∈ binaryDigits ↔ isBinaryDigit c = true := by
  simp [binaryDigits, isBinaryDigit]

/-! ## Numbers of each kind -/

theorem mem_whole {t : List Char} : t ∈ whole.matches' ↔ IsDigits Char.isDigit t :=
  mem_separated mem_decimalDigits

theorem mem_optional_whole {t : List Char} :
    t ∈ (optional whole).matches' ↔ t = [] ∨ IsDigits Char.isDigit t := by
  rw [mem_optional, mem_whole]

theorem mem_pointed {t : List Char} : t ∈ pointed.matches' ↔ IsPointed t := by
  simp only [pointed, mem_add, mem_mul (s := .char '.' * _), mem_char_mul, mem_optional_whole,
    mem_whole]
  constructor
  · intro h
    rcases h with ⟨x, _, rfl, hx, y, rfl, hy⟩ | ⟨x, _, rfl, hx, y, rfl, hy⟩
    · exact .mk hx (.inr hy) (.inr (List.length_pos_iff.1 hy.length_pos))
    · exact .mk (.inr hx) hy (.inl (List.length_pos_iff.1 hx.length_pos))
  · intro h
    obtain ⟨hwhole, hfraction, hside⟩ := h
    rcases hside with hside | hside
    · exact .inr ⟨_, _, rfl, hwhole.resolve_left hside, _, rfl, hfraction⟩
    · exact .inl ⟨_, _, rfl, hwhole, _, rfl, hfraction.resolve_left hside⟩

theorem mem_sign {t : List Char} :
    t ∈ (optional (oneOf ['+', '-'])).matches' ↔ t = [] ∨ t = ['+'] ∨ t = ['-'] := by
  rw [mem_optional, mem_oneOf]
  simp

theorem mem_exponent {t : List Char} :
    t ∈ (oneOf ['e', 'E'] * (optional (oneOf ['+', '-']) * whole)).matches' ↔ IsExponent t := by
  simp only [mem_oneOf_mul, mem_mul (s := whole), mem_sign, mem_whole]
  constructor
  · intro h
    obtain ⟨letter, _, rfl, hletter, sign, ds, rfl, hsign, hds⟩ := h
    exact .mk (by simpa using hletter) hsign hds
  · intro h
    obtain ⟨hletter, hsign, hds⟩ := h
    exact ⟨_, _, rfl, by simpa using hletter, _, _, rfl, hsign, hds⟩

theorem mem_scaled {t : List Char} : t ∈ scaled.matches' ↔ IsScaled t := by
  rw [scaled, mem_mul]
  simp only [mem_add, mem_whole, mem_pointed, mem_exponent]
  constructor
  · intro h
    obtain ⟨m, e, rfl, hm, he⟩ := h
    exact .mk hm he
  · intro h
    obtain ⟨hm, he⟩ := h
    exact ⟨_, _, rfl, hm, he⟩

theorem mem_announced {letters alphabet t : List Char} {isDigit : Char → Bool}
    (halphabet : ∀ c, c ∈ alphabet ↔ isDigit c = true) :
    t ∈ (announced letters alphabet).matches' ↔
      ∃ c ds, t = '0' :: c :: ds ∧ c ∈ letters ∧ IsDigits isDigit ds := by
  simp only [announced, mem_char_mul, mem_oneOf_mul, mem_separated halphabet]
  constructor
  · intro h
    obtain ⟨_, rfl, c, ds, rfl, hc, hds⟩ := h
    exact ⟨c, ds, rfl, hc, hds⟩
  · intro h
    obtain ⟨c, ds, rfl, hc, hds⟩ := h
    exact ⟨_, rfl, c, ds, rfl, hc, hds⟩

theorem mem_based {t : List Char} : t ∈ based.matches' ↔ IsBased t := by
  have hletter : ∀ {a b c : Char}, c ∈ [a, b] ↔ c = a ∨ c = b := by simp
  simp only [based, mem_add, mem_announced mem_hexDigits, mem_announced mem_binaryDigits,
    mem_announced mem_octalDigits, hletter]
  constructor
  · intro h
    rcases h with ⟨c, ds, rfl, hc, hds⟩ | ⟨c, ds, rfl, hc, hds⟩ | ⟨c, ds, rfl, hc, hds⟩
    · exact .hex hc hds
    · exact .binary hc hds
    · exact .octal hc hds
  · intro h
    cases h with
    | hex hc hds => exact .inl ⟨_, _, rfl, hc, hds⟩
    | binary hc hds => exact .inr (.inl ⟨_, _, rfl, hc, hds⟩)
    | octal hc hds => exact .inr (.inr ⟨_, _, rfl, hc, hds⟩)

theorem mem_numeral {t : List Char} : t ∈ numeral.matches' ↔ IsNumeral t := by
  simp only [numeral, mem_add, mem_whole, mem_pointed, mem_scaled, mem_based]
  rw [isNumeral_iff, IsDecimal, IsMantissa, or_assoc, or_assoc]

theorem isFloat_iff {t : List Char} :
    IsNumber .floatLiteral t ↔ t ∈ pointed.matches' ∨ t ∈ scaled.matches' := by
  rw [mem_pointed, mem_scaled]
  constructor
  · intro h
    cases h with
    | pointed h => exact .inl h
    | scaled h => exact .inr h
  · intro h
    exact h.elim .pointed .scaled

end Grammar

theorem isNumberChar_lt {c : Char} (h : isNumberChar c = true) : c.toNat < 128 := by
  simp only [isNumberChar, isDecimalChar, Bool.or_eq_true, beq_iff_eq, isDigit_iff,
    isHexDigit_iff, or_assoc] at h
  rcases h with h | rfl | rfl | rfl | rfl | rfl | rfl | h | h | h | h
  · omega
  · decide
  · decide
  · decide
  · decide
  · decide
  · decide
  · omega
  · omega
  · omega
  · obtain ⟨isDigit, hbase⟩ := Option.isSome_iff_exists.1 h
    unfold baseDigits? at hbase
    split at hbase
    · next hc => rcases hc with rfl | rfl <;> decide
    · split at hbase
      · next hc => rcases hc with rfl | rfl <;> decide
      · split at hbase
        · next hc => rcases hc with rfl | rfl <;> decide
        · cases hbase

/-- Numbers are ASCII. -/
theorem IsNumeral.byteLength_eq {t : List Char} (h : IsNumeral t) :
    Text.byteLength t = t.length :=
  Text.byteLength_eq_length fun c hc => isNumberChar_lt (h.mem c hc)

/-- The measured number is the longest head of the text that the expression of numbers
matches, in characters as in bytes. It is a float just if that head has a point or an
exponent. -/
theorem number_longestMatch {cs : List Char} (h : OpensNumber cs) :
    ∃ t, IsLongest (· ∈ Grammar.numeral.matches') t cs ∧
      (number cs).2 = t.length ∧ (number cs).2 = Text.byteLength t ∧
      ((number cs).1 = .floatLiteral ↔
        t ∈ Grammar.pointed.matches' ∨ t ∈ Grammar.scaled.matches') ∧
      ((number cs).1 = .integerLiteral ↔
        ¬ (t ∈ Grammar.pointed.matches' ∨ t ∈ Grammar.scaled.matches')) := by
  obtain ⟨type, t, hnumber, htype, hlongest⟩ := number_spec h
  have hfloat : type = .floatLiteral ↔
      t ∈ Grammar.pointed.matches' ∨ t ∈ Grammar.scaled.matches' := by
    rw [← Grammar.isFloat_iff]
    exact ⟨fun heq => heq ▸ htype, fun hfloat => htype.type_unique hfloat⟩
  have hinteger : type = .integerLiteral ↔ ¬ type = .floatLiteral := by
    cases htype <;> simp
  rw [hnumber]
  refine ⟨t, ⟨hlongest.head, Grammar.mem_numeral.2 hlongest.holds, ?_⟩, rfl,
    hlongest.holds.byteLength_eq.symm, hfloat, hinteger.trans (not_congr hfloat)⟩
  intro x hx hmatch
  exact hlongest.length_le x hx (Grammar.mem_numeral.1 hmatch)

/-- A letter and a sign without digits behind them are no part of the number. -/
theorem number_longestMatch_open_exponent :
    OpensNumber "1_0.5e+".toList ∧
      IsLongest (· ∈ Grammar.numeral.matches') "1_0.5".toList "1_0.5e+".toList ∧
      ("1_0.5".toList ∈ Grammar.pointed.matches' ∨ "1_0.5".toList ∈ Grammar.scaled.matches') := by
  have hopens : OpensNumber "1_0.5e+".toList := .inl rfl
  obtain ⟨t, hlongest, hlength, -, hfloat, -⟩ := number_longestMatch hopens
  have hnumber : number "1_0.5e+".toList = (.floatLiteral, 5) := by decide
  rw [hnumber] at hlength hfloat
  obtain rfl : t = "1_0.5".toList := by
    have ht := List.prefix_iff_eq_take.1 hlongest.head
    rw [← hlength] at ht
    exact ht
  exact ⟨hopens, hlongest, hfloat.1 rfl⟩

end PhpTokens.Lexer
