import PhpTokens.Record.Preferences
import PhpTokens.Record.Token

/-!
# Records can be read back

Every type with a record form is written in one way and read from several: a
structure also as a list of its fields, a constant also as the name of a null
field, preferences also with fields left out. Two facts about a type settle
all of it (`RoundTrips.of_representable`). What is written is read back, for
values that fit the fields of a record; and what is read fits, in whichever
form it was given. So a value that was read once is written in a form that
gives it again, and writing what was read is the same the second time.

Only indices, offsets, lines and columns can fail to fit. The types are nested
and so are the proofs: each uses the two facts about the types of its fields.
-/

namespace PhpTokens

namespace Codec

/-- What is written after reading some data. -/
def rewritten? {α : Type} (encode : α → Datum) (decode? : Datum → Option α) (d : Datum) :
    Option Datum :=
  (decode? d).map encode

/-- Values that fit are read back from what is written; so is whatever was read, in any of
its forms; and writing what was read changes nothing the second time. -/
structure RoundTrips {α : Type} (Representable : α → Prop) (encode : α → Datum)
    (decode? : Datum → Option α) : Prop where
  written : ∀ v, Representable v → decode? (encode v) = some v
  reread : ∀ d v, decode? d = some v → decode? (encode v) = some v
  idempotent : ∀ d, (rewritten? encode decode? d).bind (rewritten? encode decode?) =
    rewritten? encode decode? d

theorem RoundTrips.of_representable {α : Type} {Representable : α → Prop} {encode : α → Datum}
    {decode? : Datum → Option α} (hwrite : ∀ v, Representable v → decode? (encode v) = some v)
    (hread : ∀ d v, decode? d = some v → Representable v) :
    RoundTrips Representable encode decode? := by
  refine ⟨hwrite, fun d v h => hwrite v (hread d v h), ?_⟩
  intro d
  cases h : decode? d with
  | none => simp only [rewritten?, h, Option.map_none, Option.bind_none]
  | some v =>
      simp only [rewritten?, h, Option.map_some, Option.bind_some, hwrite v (hread d v h)]

theorem RoundTrips.of_total {α : Type} {encode : α → Datum} {decode? : Datum → Option α}
    (hwrite : ∀ v, decode? (encode v) = some v) :
    RoundTrips (fun _ => True) encode decode? :=
  .of_representable (fun v _ => hwrite v) (fun _ _ _ => trivial)

theorem field?_cons_self {α : Type} (read : Datum → Option α) (name : String) (d : Datum)
    (fields : List (String × Datum)) : field? read ((name, d) :: fields) name = read d := by
  simp [field?, Datum.field?]

theorem field?_cons_of_ne {α : Type} (read : Datum → Option α) {key name : String}
    (h : key ≠ name) (d : Datum) (fields : List (String × Datum)) :
    field? read ((key, d) :: fields) name = field? read fields name := by
  simp [field?, Datum.field?, h]

theorem exists_of_field? {α : Type} {read : Datum → Option α} {fields : List (String × Datum)}
    {name : String} {v : α} (h : field? read fields name = some v) : ∃ d, read d = some v := by
  obtain ⟨d, -, hd⟩ := Option.bind_eq_some_iff.1 h
  exact ⟨d, hd⟩

theorem natBelow?_nat {bound n : Nat} (h : n < bound) : natBelow? bound (.nat n) = some n := by
  rw [Datum.nat, natBelow?, if_pos (by omega), Int.toNat_natCast]

theorem lt_of_natBelow? {bound n : Nat} {d : Datum} (h : natBelow? bound d = some n) :
    n < bound := by
  cases d with
  | int k =>
      rw [natBelow?] at h
      split at h
      · next hk =>
          cases h
          omega
      · cases h
  | _ => cases h

theorem word32?_nat (n : UInt32) : word32? (.nat n.toNat) = some n := by
  rw [word32?, natBelow?_nat n.toNat_lt, Option.map_some, UInt32.ofNat_toNat]

/-- A table of labels that is right for every entry of a list. -/
theorem ofLabel?_of_all {α : Type} [DecidableEq α] {all : List α} {label : α → String}
    {ofLabel? : String → Option α}
    (h : (all.all fun v => ofLabel? (label v) == some v) = true) {v : α} (hv : v ∈ all) :
    ofLabel? (label v) = some v :=
  eq_of_beq (List.all_eq_true.1 h v hv)

end Codec

open Codec

/-! ## Constants -/

theorem Keyword.ofLabel?_label (k : Keyword) : ofLabel? k.label = some k :=
  ofLabel?_of_all (by decide +kernel) k.mem_all

theorem Operator.ofLabel?_label (o : Operator) : ofLabel? o.label = some o :=
  ofLabel?_of_all (by decide +kernel) o.mem_all

theorem Direction.ofLabel?_label (d : Direction) : ofLabel? d.label = some d := by
  cases d <;> decide

theorem Log.Level.ofLabel?_label (l : Log.Level) : ofLabel? l.label = some l := by
  cases l <;> decide

theorem TokenType.decode?_encode (t : TokenType) : decode? t.encode = some t := by
  cases t with
  | keyword k => exact congrArg (Option.map TokenType.keyword) k.ofLabel?_label
  | operator o => exact congrArg (Option.map TokenType.operator) o.ofLabel?_label
  | _ => decide +kernel

/-! ## Places -/

/-- The offset fits a word. Line and column are numbers of 32 bits as they are. -/
def Position.Representable (p : Position) : Prop := p.offset < wordBound

/-- Both ends fit. -/
def Span.Representable (s : Span) : Prop := s.start.Representable ∧ s.stop.Representable

/-- The index fits a word. -/
def Token.Representable (t : Token) : Prop := t.index < wordBound

theorem Position.decode?_encode {p : Position} (h : p.Representable) :
    decode? p.encode = some p := by
  have hoffset : natBelow? wordBound (.nat p.offset) = some p.offset := natBelow?_nat h
  simp [encode, decode?, field?_cons_self, field?_cons_of_ne, hoffset, word32?_nat]

theorem Position.representable_of_decode? {d : Datum} {p : Position} (h : decode? d = some p) :
    p.Representable := by
  -- In either form the offset is read first, below its bound.
  rw [decode?.eq_def] at h
  split at h
  · obtain ⟨offset, hoffset, h⟩ := Option.bind_eq_some_iff.1 h
    obtain ⟨line, -, h⟩ := Option.bind_eq_some_iff.1 h
    obtain ⟨column, -, h⟩ := Option.bind_eq_some_iff.1 h
    cases h
    obtain ⟨d, hd⟩ := exists_of_field? hoffset
    exact lt_of_natBelow? hd
  · obtain ⟨offset, hoffset, h⟩ := Option.bind_eq_some_iff.1 h
    obtain ⟨line, -, h⟩ := Option.bind_eq_some_iff.1 h
    obtain ⟨column, -, h⟩ := Option.bind_eq_some_iff.1 h
    cases h
    exact lt_of_natBelow? hoffset
  · cases h

theorem Span.decode?_encode {s : Span} (h : s.Representable) : decode? s.encode = some s := by
  simp [encode, decode?, field?_cons_self, field?_cons_of_ne, Position.decode?_encode h.1,
    Position.decode?_encode h.2]

theorem Span.representable_of_decode? {d : Datum} {s : Span} (h : decode? d = some s) :
    s.Representable := by
  rw [decode?.eq_def] at h
  split at h
  · obtain ⟨start, hstart, h⟩ := Option.bind_eq_some_iff.1 h
    obtain ⟨stop, hstop, h⟩ := Option.bind_eq_some_iff.1 h
    cases h
    obtain ⟨a, ha⟩ := exists_of_field? hstart
    obtain ⟨b, hb⟩ := exists_of_field? hstop
    exact ⟨Position.representable_of_decode? ha, Position.representable_of_decode? hb⟩
  · obtain ⟨start, hstart, h⟩ := Option.bind_eq_some_iff.1 h
    obtain ⟨stop, hstop, h⟩ := Option.bind_eq_some_iff.1 h
    cases h
    exact ⟨Position.representable_of_decode? hstart, Position.representable_of_decode? hstop⟩
  · cases h

/-! ## Tokens -/

theorem Lexeme.decode?_encode (l : Lexeme) : decode? l.encode = some l := by
  obtain ⟨type?, text⟩ := l
  cases type? with
  | none => rfl
  | some type =>
      simp [encode, decode?, field?_cons_self, field?_cons_of_ne, TokenType.decode?_encode, text?,
        typed]

theorem Token.decode?_encode {t : Token} (h : t.Representable) : decode? t.encode = some t := by
  have hindex : t.index < wordBound := h
  simp [encode, decode?, field?_cons_self, field?_cons_of_ne, natBelow?_nat hindex,
    TokenType.decode?_encode, text?]

theorem Token.representable_of_decode? {d : Datum} {t : Token} (h : decode? d = some t) :
    t.Representable := by
  rw [decode?.eq_def] at h
  split at h
  · obtain ⟨index, hindex, h⟩ := Option.bind_eq_some_iff.1 h
    obtain ⟨type, -, h⟩ := Option.bind_eq_some_iff.1 h
    obtain ⟨content, -, h⟩ := Option.bind_eq_some_iff.1 h
    cases h
    obtain ⟨i, hi⟩ := exists_of_field? hindex
    exact lt_of_natBelow? hi
  · obtain ⟨index, hindex, h⟩ := Option.bind_eq_some_iff.1 h
    obtain ⟨type, -, h⟩ := Option.bind_eq_some_iff.1 h
    obtain ⟨content, -, h⟩ := Option.bind_eq_some_iff.1 h
    cases h
    exact lt_of_natBelow? hindex
  · cases h

theorem TriviaSet.decode?_encode (s : TriviaSet) : decode? s.encode = some s := by
  -- The list is read type by type, and the first that cannot be read would lose them all.
  have htypes : (s.types.map TokenType.encode).mapM TokenType.decode? = some s.types := by
    induction s.types with
    | nil => rfl
    | cons t types ih => simp [TokenType.decode?_encode, ih]
  simp [encode, decode?, field?_cons_self, decodeTypes?, htypes]

/-! ## Preferences -/

namespace Settings

theorem LexicalPreferences.decode?_encode (env : Environment) (p : LexicalPreferences) :
    decode? env p.encode = some p := rfl

theorem LoggingPreferences.decode?_encode (env : Environment) (p : LoggingPreferences) :
    decode? env p.encode = some p := by
  obtain ⟨structured, console, leastLevel, failedSearches⟩ := p
  cases leastLevel <;> rfl

theorem Preferences.decode?_encode (env : Environment) (p : Preferences) :
    decode? env p.encode = some p := by
  have hlexical : Format.datum.lexical? (.ofEnvironment env) p.lexical.encode = some p.lexical :=
    LexicalPreferences.decode?_encode env p.lexical
  have hlogging : Format.datum.logging? (.ofEnvironment env) p.logging.encode = some p.logging :=
    LoggingPreferences.decode?_encode env p.logging
  show ((Format.datum.lexical? (.ofEnvironment env) p.lexical.encode).bind fun lexical =>
    (Format.datum.logging? (.ofEnvironment env) p.logging.encode).bind fun logging =>
      some ⟨lexical, logging⟩) = some p
  rw [hlexical, hlogging]
  rfl

end Settings

/-- In any environment, every value with a record form is read back from its record, and so is
whatever was read from a record in any of the forms that are accepted. -/
theorem records_roundTrip (env : Settings.Environment) :
    RoundTrips (fun _ => True) TokenType.encode TokenType.decode? ∧
    RoundTrips Token.Representable Token.encode Token.decode? ∧
    RoundTrips (fun _ => True) Lexeme.encode Lexeme.decode? ∧
    RoundTrips (fun _ => True) (Codec.encode : Keyword → Datum) Codec.decode? ∧
    RoundTrips (fun _ => True) (Codec.encode : Operator → Datum) Codec.decode? ∧
    RoundTrips (fun _ => True) (Codec.encode : Direction → Datum) Codec.decode? ∧
    RoundTrips (fun _ => True) TriviaSet.encode TriviaSet.decode? ∧
    RoundTrips Position.Representable Position.encode Position.decode? ∧
    RoundTrips Span.Representable Span.encode Span.decode? ∧
    RoundTrips (fun _ => True) (Codec.encode : Log.Level → Datum) Codec.decode? ∧
    RoundTrips (fun _ => True) Settings.LexicalPreferences.encode
      (Settings.LexicalPreferences.decode? env) ∧
    RoundTrips (fun _ => True) Settings.LoggingPreferences.encode
      (Settings.LoggingPreferences.decode? env) ∧
    RoundTrips (fun _ => True) Settings.Preferences.encode (Settings.Preferences.decode? env) :=
  ⟨.of_total TokenType.decode?_encode,
    .of_representable (fun _ => Token.decode?_encode) (fun _ _ => Token.representable_of_decode?),
    .of_total Lexeme.decode?_encode,
    .of_total Keyword.ofLabel?_label,
    .of_total Operator.ofLabel?_label,
    .of_total Direction.ofLabel?_label,
    .of_total TriviaSet.decode?_encode,
    .of_representable (fun _ => Position.decode?_encode)
      (fun _ _ => Position.representable_of_decode?),
    .of_representable (fun _ => Span.decode?_encode) (fun _ _ => Span.representable_of_decode?),
    .of_total Log.Level.ofLabel?_label,
    .of_total (Settings.LexicalPreferences.decode?_encode env),
    .of_total (Settings.LoggingPreferences.decode?_encode env),
    .of_total (Settings.Preferences.decode?_encode env)⟩

/-- A position may be a list, a field may be unknown, and the order does not matter. -/
example : Span.decode? (.record [("end", .list [.nat 2, .nat 1, .nat 3]), ("note", .scalar),
    ("start", Position.start.encode)]) = some ⟨.start, ⟨2, 1, 3⟩⟩ := by decide +kernel

/-- A level may be a null field, and a preference may be left to the environment. -/
example : Settings.LoggingPreferences.decode? [("TOKSEQ_LOGGING_ENABLE_CONSOLE", "true".toUTF8)]
    (.record [("min_log_level", .record [("debug", .null)])]) =
      some { console := true, leastLevel := .debug } := by decide +kernel

end PhpTokens
