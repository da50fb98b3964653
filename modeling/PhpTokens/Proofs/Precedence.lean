import PhpTokens.Proofs.RoundTrip
import PhpTokens.Settings.File

/-!
# Where a preference comes from

A preference may be written in a document, spelled in a variable of the
environment, or left to its built-in default, and they count in this order. The
rule is the same for all (`Field.Follows`). What differs is a table: the section
and the key under which a preference is written, the name of its variable, its
default, and whether it is a switch or a level.

A document is read section by section, over the preferences that the environment
gives. A section that is not there reads as an empty one, so each preference is
one look at one key with one value to fall back on (`fieldOr_value`), and that is
all that the rule needs. Since the value to fall back on never fails, neither
does an environment: which documents are accepted does not depend on it
(`isSome_preferences?`).
-/

namespace PhpTokens

/-- The words for a level in a variable, in small letters. -/
def Log.Level.words : Log.Level → List String
  | .error => ["error", "0"]
  | .warning => ["warning", "warn", "1"]
  | .info => ["info", "2"]
  | .debug => ["debug", "3"]

namespace Settings

/-! ## Switches and levels -/

/-- What there is to choose. -/
inductive Choice where
  | switch | level
deriving DecidableEq, Repr

namespace Choice

/-- What can be chosen. -/
abbrev Value : Choice → Type
  | .switch => Bool
  | .level => Log.Level

/-- Whether a value of a document means a choice. A level is a text, or a table with
nothing under its name. -/
def Denotes : (c : Choice) → Toml.Value → c.Value → Prop
  | .switch, v, b => v = .bool b
  | .level, v, l => v = .text l.label ∨
      ∃ kind nothing, v = .table kind [(l.label, nothing)] ∧ isVoid nothing = true

/-- Whether the text of a variable means a choice. For a level capitals are as good as small
letters. -/
def Spells : (c : Choice) → String → c.Value → Prop
  | .switch, s, b => s = toString b
  | .level, s, l => String.ofList (s.toList.map Char.toLower) ∈ l.words

/-- The choice that a value of a document gives. -/
def read? : (c : Choice) → Toml.Value → Option c.Value
  | .switch => Format.toml.bool?
  | .level => Format.toml.level?

/-- The choice that the text of a variable gives. -/
def parse? : (c : Choice) → String → Option c.Value
  | .switch => Environment.parseBool?
  | .level => Environment.parseLevel?

theorem ofLabel?_eq_some_iff {s : String} {l : Log.Level} :
    Log.Level.ofLabel? s = some l ↔ s = l.label := by
  refine ⟨fun h => ?_, fun h => h ▸ l.ofLabel?_label⟩
  have hlabel := List.find?_some h
  exact (of_decide_eq_true hlabel).symm

theorem levelOfKey?_eq_some_iff {name : String} {v : Toml.Value} {l : Log.Level} :
    levelOfKey? name v = some l ↔ name = l.label ∧ isVoid v = true := by
  rw [levelOfKey?]
  split
  · next hvoid => rw [ofLabel?_eq_some_iff, and_iff_left hvoid]
  · next hvoid => exact ⟨fun h => absurd h (by simp), fun h => absurd h.2 hvoid⟩

theorem read?_eq_some_iff {c : Choice} {v : Toml.Value} {x : c.Value} :
    c.read? v = some x ↔ c.Denotes v x := by
  cases c with
  | switch => cases v <;> simp [read?, Format.toml, Denotes]
  | level =>
      cases v with
      | text s => simp [read?, Format.toml, Denotes, ofLabel?_eq_some_iff]
      | table kind entries =>
          rcases entries with _ | ⟨⟨name, v⟩, _ | ⟨e, entries⟩⟩
          · simp [read?, Format.toml, Denotes]
          · show levelOfKey? name v = some x ↔ Denotes .level (.table kind [(name, v)]) x
            rw [levelOfKey?_eq_some_iff]
            refine ⟨fun ⟨hname, hvoid⟩ => .inr ⟨kind, v, by rw [hname], hvoid⟩, ?_⟩
            rintro (htext | ⟨kind, nothing, htable, hvoid⟩)
            · cases htext
            · cases htable
              exact ⟨rfl, hvoid⟩
          · simp [read?, Format.toml, Denotes]
      | _ => simp [read?, Format.toml, Denotes]

theorem parseBool?_eq_some_iff {s : String} {b : Bool} :
    Environment.parseBool? s = some b ↔ s = toString b := by
  rw [Environment.parseBool?]
  split
  · next htrue =>
      subst htrue
      cases b <;> decide
  · next htrue =>
      split
      · next hfalse =>
          subst hfalse
          cases b <;> decide
      · next hfalse =>
          refine ⟨fun h => absurd h (by simp), fun h => ?_⟩
          cases b with
          | true => exact absurd h htrue
          | false => exact absurd h hfalse

theorem parseLevel?_eq_some_iff {s : String} {l : Log.Level} :
    Environment.parseLevel? s = some l ↔ String.ofList (s.toList.map Char.toLower) ∈ l.words := by
  rw [Environment.parseLevel?]
  generalize String.ofList (s.toList.map Char.toLower) = lower
  split
  · next herror => rcases herror with rfl | rfl <;> cases l <;> decide
  · split
    · next hwarning => rcases hwarning with rfl | rfl | rfl <;> cases l <;> decide
    · split
      · next hinfo => rcases hinfo with rfl | rfl <;> cases l <;> decide
      · split
        · next hdebug => rcases hdebug with rfl | rfl <;> cases l <;> decide
        · cases l <;> simp [Log.Level.words, *]

theorem parse?_eq_some_iff {c : Choice} {s : String} {x : c.Value} :
    c.parse? s = some x ↔ c.Spells s x := by
  cases c with
  | switch => exact parseBool?_eq_some_iff
  | level => exact parseLevel?_eq_some_iff

end Choice

/-! ## The preferences one by one -/

/-- The preferences. -/
inductive Field where
  | detailedMetrics | positionInErrors | tokenStatistics
  | structured | console | leastLevel | failedSearches
deriving DecidableEq, Repr

namespace Field

/-- What there is to choose for a preference. -/
def choice : Field → Choice
  | .leastLevel => .level
  | _ => .switch

/-- The values of a preference. -/
abbrev Value (f : Field) : Type := f.choice.Value

/-- The section of a document that a preference is written in. -/
def table : Field → String
  | .detailedMetrics | .positionInErrors | .tokenStatistics => "lexical"
  | .structured | .console | .leastLevel | .failedSearches => "logging"

/-- The key that a preference is written under. -/
def key : Field → String
  | .detailedMetrics => "collect_detailed_metrics"
  | .positionInErrors => "include_position_in_errors"
  | .tokenStatistics => "log_token_statistics"
  | .structured => "use_structured_logging"
  | .console => "enable_console_logging"
  | .leastLevel => "min_log_level"
  | .failedSearches => "log_failed_searches"

/-- The variable of the environment that belongs to a preference. -/
def variableName : Field → String
  | .detailedMetrics => "TOKSEQ_LEXICAL_DETAILED_METRICS"
  | .positionInErrors => "TOKSEQ_LEXICAL_INCLUDE_POSITIONS"
  | .tokenStatistics => "TOKSEQ_LEXICAL_LOG_TOKEN_STATS"
  | .structured => "TOKSEQ_LOGGING_USE_STRUCTURED"
  | .console => "TOKSEQ_LOGGING_ENABLE_CONSOLE"
  | .leastLevel => "TOKSEQ_LOGGING_MIN_LEVEL"
  | .failedSearches => "TOKSEQ_LOGGING_LOG_FAILED_SEARCHES"

/-- The default of a preference. -/
def builtin : (f : Field) → f.Value
  | .detailedMetrics => true
  | .positionInErrors => true
  | .tokenStatistics => false
  | .structured => false
  | .console => false
  | .leastLevel => Log.Level.info
  | .failedSearches => false

/-- A preference among all of them. -/
def value (p : Preferences) : (f : Field) → f.Value
  | .detailedMetrics => p.lexical.detailedMetrics
  | .positionInErrors => p.lexical.positionInErrors
  | .tokenStatistics => p.lexical.tokenStatistics
  | .structured => p.logging.structured
  | .console => p.logging.console
  | .leastLevel => p.logging.leastLevel
  | .failedSearches => p.logging.failedSearches

end Field

/-- The entries of a section that is a table. -/
def sectionEntries (entries : Toml.Entries) (name : String) : Toml.Entries :=
  match entries.lookup name with
  | some (.table _ inner) => inner
  | _ => []

namespace Field

/-- The value that a document has under the key of a preference. -/
def writtenIn? (f : Field) (entries : Toml.Entries) : Option Toml.Value :=
  (sectionEntries entries f.table).lookup f.key

/-- The rule of precedence: a value that is written counts, then one that is spelled in the
variable, then the default. -/
structure Follows (f : Field) (env : Environment) (entries : Toml.Entries) (x : f.Value) :
    Prop where
  written : ∀ v, f.writtenIn? entries = some v → f.choice.Denotes v x
  spelled : f.writtenIn? entries = none → ∀ s y, env.lookup f.variableName = some s.toUTF8 →
    f.choice.Spells s y → x = y
  otherwise : f.writtenIn? entries = none → (∀ s y, env.lookup f.variableName = some s.toUTF8 →
    ¬ f.choice.Spells s y) → x = f.builtin

theorem Follows.unique {f : Field} {env env' : Environment} {entries entries' : Toml.Entries}
    {x y : f.Value} (hx : f.Follows env entries x) (hy : f.Follows env' entries' y)
    (hentry : f.writtenIn? entries = f.writtenIn? entries')
    (hvariable : env.lookup f.variableName = env'.lookup f.variableName) : x = y := by
  cases hwritten : f.writtenIn? entries' with
  | some v =>
      have hread := Choice.read?_eq_some_iff.2 (hx.written v (hentry.trans hwritten))
      rw [Choice.read?_eq_some_iff.2 (hy.written v hwritten)] at hread
      exact (Option.some.inj hread).symm
  | none =>
      have hwritten' := hentry.trans hwritten
      by_cases hspelled : ∃ s z, env.lookup f.variableName = some s.toUTF8 ∧ f.choice.Spells s z
      · obtain ⟨s, z, hset, hz⟩ := hspelled
        rw [hx.spelled hwritten' s z hset hz, hy.spelled hwritten s z (hvariable ▸ hset) hz]
      · rw [hx.otherwise hwritten' fun s z hset hz => hspelled ⟨s, z, hset, hz⟩,
          hy.otherwise hwritten fun s z hset hz => hspelled ⟨s, z, hvariable ▸ hset, hz⟩]

/-- What a preference falls back on where no document gives it. -/
def fallback (f : Field) (env : Environment) : f.Value :=
  ((env.text? f.variableName).bind f.choice.parse?).getD f.builtin

end Field

theorem fromUTF8?_eq_some_iff {bytes : ByteArray} {s : String} :
    String.fromUTF8? bytes = some s ↔ bytes = s.toUTF8 := by
  have hdef : String.fromUTF8? bytes =
      if h : bytes.IsValidUTF8 then some (String.fromUTF8 bytes h) else none := rfl
  rw [hdef]
  refine ⟨fun h => ?_, fun h => ?_⟩
  · split at h
    · cases h
      rfl
    · cases h
  · subst h
    exact dif_pos s.isValidUTF8

theorem Environment.text?_eq_some_iff {env : Environment} {name s : String} :
    env.text? name = some s ↔ env.lookup name = some s.toUTF8 := by
  rw [text?, Option.bind_eq_some_iff]
  refine ⟨fun ⟨bytes, hset, htext⟩ => ?_, fun h => ⟨_, h, fromUTF8?_eq_some_iff.2 rfl⟩⟩
  rw [hset, fromUTF8?_eq_some_iff.1 htext]

/-- One look at a key, with the environment to fall back on, is the rule. -/
theorem Field.follows_of_fieldOr {f : Field} {env : Environment} {entries : Toml.Entries}
    {x : f.Value} (h : Format.fieldOr f.choice.read? (sectionEntries entries f.table) f.key
      (f.fallback env) = some x) : f.Follows env entries x := by
  rw [Format.fieldOr] at h
  split at h
  · next v hentry =>
      refine ⟨fun w hw => ?_, fun hnone => ?_, fun hnone => ?_⟩
      · rw [writtenIn?, hentry] at hw
        cases hw
        exact Choice.read?_eq_some_iff.1 h
      · rw [writtenIn?, hentry] at hnone
        cases hnone
      · rw [writtenIn?, hentry] at hnone
        cases hnone
  · next hentry =>
      cases h
      refine ⟨fun v hv => ?_, fun _ s y hset hspells => ?_, fun _ hnot => ?_⟩
      · rw [writtenIn?, hentry] at hv
        cases hv
      · rw [fallback, Environment.text?_eq_some_iff.2 hset, Option.bind_some,
          Choice.parse?_eq_some_iff.2 hspells, Option.getD_some]
      · have hnone : (env.text? f.variableName).bind f.choice.parse? = none := by
          refine Option.eq_none_iff_forall_ne_some.2 fun y hy => ?_
          obtain ⟨s, hset, hspells⟩ := Option.bind_eq_some_iff.1 hy
          exact hnot s y (Environment.text?_eq_some_iff.1 hset)
            (Choice.parse?_eq_some_iff.1 hspells)
        rw [fallback, hnone, Option.getD_none]

/-! ## Reading a document -/

/-- Whether a value of a document is a table. -/
def isTable : Toml.Value → Bool
  | .table _ _ => true
  | _ => false

/-- A document that is accepted in an environment, where its sections are tables. -/
structure Loads (parse : Toml.Parser) (env : Environment) (source : String)
    (entries : Toml.Entries) (p : Preferences) : Prop where
  parsed : parse source = some entries
  lexical : (entries.lookup "lexical").all isTable = true
  logging : (entries.lookup "logging").all isTable = true
  loaded : Preferences.load env source parse = .ok p

/-- A section that is not there reads as an empty table. -/
theorem exists_section {α : Type} {read : Toml.Value → Option α} {entries : Toml.Entries}
    {name : String} {default x : α}
    (htable : (entries.lookup name).all isTable = true)
    (hempty : ∀ kind, read (.table kind []) = some default)
    (h : Format.fieldOr read entries name default = some x) :
    ∃ kind, read (.table kind (sectionEntries entries name)) = some x := by
  rw [Format.fieldOr] at h
  rw [sectionEntries]
  cases hsection : entries.lookup name with
  | none =>
      rw [hsection] at h
      exact ⟨.defined, (hempty .defined).trans h⟩
  | some v =>
      rw [hsection] at h htable
      cases v with
      | table kind inner => exact ⟨kind, h⟩
      | _ => cases htable

theorem fieldOr_of_lexical? {defaults l : LexicalPreferences} {kind : Toml.TableKind}
    {inner : Toml.Entries} (h : Format.toml.lexical? defaults (.table kind inner) = some l) :
    Format.fieldOr Format.toml.bool? inner "collect_detailed_metrics" defaults.detailedMetrics =
        some l.detailedMetrics ∧
      Format.fieldOr Format.toml.bool? inner "include_position_in_errors"
        defaults.positionInErrors = some l.positionInErrors ∧
      Format.fieldOr Format.toml.bool? inner "log_token_statistics" defaults.tokenStatistics =
        some l.tokenStatistics := by
  obtain ⟨detailedMetrics, hmetrics, h⟩ := Option.bind_eq_some_iff.1 h
  obtain ⟨positionInErrors, hposition, h⟩ := Option.bind_eq_some_iff.1 h
  obtain ⟨tokenStatistics, hstatistics, h⟩ := Option.bind_eq_some_iff.1 h
  cases h
  exact ⟨hmetrics, hposition, hstatistics⟩

theorem fieldOr_of_logging? {defaults l : LoggingPreferences} {kind : Toml.TableKind}
    {inner : Toml.Entries} (h : Format.toml.logging? defaults (.table kind inner) = some l) :
    Format.fieldOr Format.toml.bool? inner "use_structured_logging" defaults.structured =
        some l.structured ∧
      Format.fieldOr Format.toml.bool? inner "enable_console_logging" defaults.console =
        some l.console ∧
      Format.fieldOr Format.toml.level? inner "min_log_level" defaults.leastLevel =
        some l.leastLevel ∧
      Format.fieldOr Format.toml.bool? inner "log_failed_searches" defaults.failedSearches =
        some l.failedSearches := by
  obtain ⟨structured, hstructured, h⟩ := Option.bind_eq_some_iff.1 h
  obtain ⟨console, hconsole, h⟩ := Option.bind_eq_some_iff.1 h
  obtain ⟨leastLevel, hlevel, h⟩ := Option.bind_eq_some_iff.1 h
  obtain ⟨failedSearches, hsearches, h⟩ := Option.bind_eq_some_iff.1 h
  cases h
  exact ⟨hstructured, hconsole, hlevel, hsearches⟩

section

variable {parse : Toml.Parser} {env : Environment} {source : String} {entries : Toml.Entries}
  {p : Preferences}

theorem load_eq_ok_iff :
    Preferences.load env source parse = .ok p ↔
      Preferences.ofToml? env source parse = some p := by
  rw [Preferences.load]
  cases Preferences.ofToml? env source parse <;> simp

theorem Loads.preferences? (h : Loads parse env source entries p) :
    Format.toml.preferences? (.ofEnvironment env) (.table .defined entries) = some p := by
  have hread := load_eq_ok_iff.1 h.loaded
  rw [Preferences.ofToml?, h.parsed] at hread
  exact hread

/-- Each preference of an accepted document is one look at its key. -/
theorem Loads.fieldOr_value (h : Loads parse env source entries p) (f : Field) :
    Format.fieldOr f.choice.read? (sectionEntries entries f.table) f.key (f.fallback env) =
      some (f.value p) := by
  obtain ⟨lexical, hlexical, hrest⟩ := Option.bind_eq_some_iff.1 h.preferences?
  obtain ⟨logging, hlogging, hrest⟩ := Option.bind_eq_some_iff.1 hrest
  cases hrest
  obtain ⟨_, hlexical⟩ := exists_section h.lexical (fun _ => rfl) hlexical
  obtain ⟨_, hlogging⟩ := exists_section h.logging (fun _ => rfl) hlogging
  obtain ⟨hmetrics, hposition, hstatistics⟩ := fieldOr_of_lexical? hlexical
  obtain ⟨hstructured, hconsole, hlevel, hsearches⟩ := fieldOr_of_logging? hlogging
  cases f with
  | detailedMetrics => exact hmetrics
  | positionInErrors => exact hposition
  | tokenStatistics => exact hstatistics
  | structured => exact hstructured
  | console => exact hconsole
  | leastLevel => exact hlevel
  | failedSearches => exact hsearches

theorem Loads.follows (h : Loads parse env source entries p) (f : Field) :
    f.Follows env entries (f.value p) :=
  Field.follows_of_fieldOr (h.fieldOr_value f)

end

/-! ## Acceptance

Whether something can be read is followed step by step. A step that reads a field or an item
fails or not whatever there is to fall back on. -/

theorem isSome_bind_eq {α β : Type} {o o' : Option α} {g g' : α → Option β}
    (ho : o.isSome = o'.isSome) (hg : ∀ a a', (g a).isSome = (g' a').isSome) :
    (o.bind g).isSome = (o'.bind g').isSome := by
  cases o with
  | none =>
      cases o' with
      | none => rfl
      | some a' => cases ho
  | some a =>
      cases o' with
      | none => cases ho
      | some a' => exact hg a a'

theorem isSome_bind_congr {α β : Type} {o : Option α} {g g' : α → Option β}
    (hg : ∀ a, (g a).isSome = (g' a).isSome) : (o.bind g).isSome = (o.bind g').isSome := by
  cases o with
  | none => rfl
  | some a => exact hg a

section

variable {δ α : Type} {read read' : δ → Option α}
  (hread : ∀ d, (read d).isSome = (read' d).isSome)

include hread

theorem isSome_fieldOr (fields : List (String × δ)) (name : String) (a a' : α) :
    (Format.fieldOr read fields name a).isSome = (Format.fieldOr read' fields name a').isSome := by
  rw [Format.fieldOr, Format.fieldOr]
  cases fields.lookup name with
  | none => rfl
  | some d => exact hread d

theorem isSome_itemOr (items : List δ) (i : Nat) (a a' : α) :
    (Format.itemOr read items i a).isSome = (Format.itemOr read' items i a').isSome := by
  rw [Format.itemOr, Format.itemOr]
  cases items[i]? with
  | none => rfl
  | some d => exact hread d

end

section

variable {δ : Type} (f : Format δ)

theorem isSome_lexical? (a a' : LexicalPreferences) (d : δ) :
    (f.lexical? a d).isSome = (f.lexical? a' d).isSome := by
  have hbool : ∀ d, (f.bool? d).isSome = (f.bool? d).isSome := fun _ => rfl
  rw [Format.lexical?, Format.lexical?]
  cases f.fields? d with
  | some fields =>
      refine isSome_bind_eq (isSome_fieldOr hbool fields _ _ _) fun _ _ => ?_
      refine isSome_bind_eq (isSome_fieldOr hbool fields _ _ _) fun _ _ => ?_
      exact isSome_bind_eq (isSome_fieldOr hbool fields _ _ _) fun _ _ => rfl
  | none =>
      refine isSome_bind_congr fun items => ?_
      refine isSome_bind_eq (isSome_itemOr hbool items _ _ _) fun _ _ => ?_
      refine isSome_bind_eq (isSome_itemOr hbool items _ _ _) fun _ _ => ?_
      exact isSome_bind_eq (isSome_itemOr hbool items _ _ _) fun _ _ => rfl

theorem isSome_logging? (a a' : LoggingPreferences) (d : δ) :
    (f.logging? a d).isSome = (f.logging? a' d).isSome := by
  have hbool : ∀ d, (f.bool? d).isSome = (f.bool? d).isSome := fun _ => rfl
  have hlevel : ∀ d, (f.level? d).isSome = (f.level? d).isSome := fun _ => rfl
  rw [Format.logging?, Format.logging?]
  cases f.fields? d with
  | some fields =>
      refine isSome_bind_eq (isSome_fieldOr hbool fields _ _ _) fun _ _ => ?_
      refine isSome_bind_eq (isSome_fieldOr hbool fields _ _ _) fun _ _ => ?_
      refine isSome_bind_eq (isSome_fieldOr hlevel fields _ _ _) fun _ _ => ?_
      exact isSome_bind_eq (isSome_fieldOr hbool fields _ _ _) fun _ _ => rfl
  | none =>
      refine isSome_bind_congr fun items => ?_
      refine isSome_bind_eq (isSome_itemOr hbool items _ _ _) fun _ _ => ?_
      refine isSome_bind_eq (isSome_itemOr hbool items _ _ _) fun _ _ => ?_
      refine isSome_bind_eq (isSome_itemOr hlevel items _ _ _) fun _ _ => ?_
      exact isSome_bind_eq (isSome_itemOr hbool items _ _ _) fun _ _ => rfl

theorem isSome_preferences? (a a' : Preferences) (d : δ) :
    (f.preferences? a d).isSome = (f.preferences? a' d).isSome := by
  have hlexical := isSome_lexical? f a.lexical a'.lexical
  have hlogging := isSome_logging? f a.logging a'.logging
  rw [Format.preferences?, Format.preferences?]
  cases f.fields? d with
  | some fields =>
      refine isSome_bind_eq (isSome_fieldOr hlexical fields _ _ _) fun _ _ => ?_
      exact isSome_bind_eq (isSome_fieldOr hlogging fields _ _ _) fun _ _ => rfl
  | none =>
      refine isSome_bind_congr fun items => ?_
      refine isSome_bind_eq (isSome_itemOr hlexical items _ _ _) fun _ _ => ?_
      exact isSome_bind_eq (isSome_itemOr hlogging items _ _ _) fun _ _ => rfl

end

theorem isSome_ofToml? (parse : Toml.Parser) (env env' : Environment) (source : String) :
    (Preferences.ofToml? env source parse).isSome =
      (Preferences.ofToml? env' source parse).isSome := by
  rw [Preferences.ofToml?, Preferences.ofToml?]
  exact isSome_bind_congr fun entries => isSome_preferences? Format.toml _ _ _

theorem exists_load_iff {parse : Toml.Parser} {env : Environment} {source : String} :
    (∃ p, Preferences.load env source parse = .ok p) ↔
      (Preferences.ofToml? env source parse).isSome = true := by
  simp only [load_eq_ok_iff, Option.isSome_iff_exists]

theorem loadFile_eq_load {parse : Toml.Parser} {env : Environment} {folder : Folder}
    {path source : String} (h : folder.lookup path = some source.toUTF8) :
    Preferences.loadFile env folder path parse = Preferences.load env source parse := by
  rw [Preferences.loadFile, Folder.read, h]
  simp only [fromUTF8?_eq_some_iff.2 rfl]

theorem Field.variableName_injective {f g : Field} (h : f.variableName = g.variableName) :
    f = g := by
  revert h
  cases f <;> cases g <;> decide

/-- However documents are parsed, in any environment and for any accepted document whose sections
are tables, every preference follows the rule of precedence. So a change of one variable and one
key leaves all other preferences as they are, no variable makes a document unacceptable, and a
file gives what its text gives. -/
theorem preferences_precedence (parse : Toml.Parser) :
    (∀ env source entries p, Loads parse env source entries p →
      ∀ f : Field, f.Follows env entries (f.value p)) ∧
    (∀ env source entries p env' source' entries' p', Loads parse env source entries p →
      Loads parse env' source' entries' p' → ∀ changed : Field,
      (∀ name, name ≠ changed.variableName → env.lookup name = env'.lookup name) →
      (∀ f, f ≠ changed → f.writtenIn? entries = f.writtenIn? entries') →
      ∀ f, f ≠ changed → f.value p = f.value p') ∧
    (∀ env env' source, (∃ p, Preferences.load env source parse = .ok p) ↔
      ∃ p, Preferences.load env' source parse = .ok p) ∧
    (∀ env (folder : Folder) path (source : String), folder.lookup path = some source.toUTF8 →
      Preferences.loadFile env folder path parse = Preferences.load env source parse) := by
  refine ⟨fun env source entries p h f => h.follows f, ?_, ?_, ?_⟩
  · intro env source entries p env' source' entries' p' h h' changed hvariables hentries f hf
    have hname : f.variableName ≠ changed.variableName :=
      fun heq => hf (Field.variableName_injective heq)
    exact (h.follows f).unique (h'.follows f) (hentries f hf) (hvariables _ hname)
  · intro env env' source
    rw [exists_load_iff, exists_load_iff, isSome_ofToml? parse env env']
  · intro env folder path source h
    exact loadFile_eq_load h

/-- An environment with a level, a switch, and a switch that is no text. -/
def overlapping : Environment := [("TOKSEQ_LOGGING_MIN_LEVEL", "0".toUTF8),
  ("TOKSEQ_LOGGING_ENABLE_CONSOLE", "true".toUTF8),
  ("TOKSEQ_LEXICAL_INCLUDE_POSITIONS", ⟨#[0xff]⟩)]

/-- The level that is written counts, not the one that is spelled. -/
theorem preferences_precedence_overlapping :
    ∃ entries, Loads Toml.parse? overlapping "[logging]\nmin_log_level = 'debug'" entries
        { logging := { console := true, leastLevel := .debug } } ∧
      Field.leastLevel.Follows overlapping entries Log.Level.debug ∧
      Field.console.Follows overlapping entries true ∧
      Field.positionInErrors.Follows overlapping entries true := by
  have hsections : (Toml.parse? "[logging]\nmin_log_level = 'debug'").any (fun entries =>
      (entries.lookup "lexical").all isTable && (entries.lookup "logging").all isTable) = true := by
    decide +kernel
  obtain ⟨entries, hparsed, htables⟩ := (Option.any_eq_true _ _).1 hsections
  obtain ⟨hlexical, hlogging⟩ := Bool.and_eq_true_iff.1 htables
  have hloads : Loads Toml.parse? overlapping "[logging]\nmin_log_level = 'debug'" entries
      { logging := { console := true, leastLevel := .debug } } :=
    ⟨hparsed, hlexical, hlogging, load_eq_ok_iff.2 (by decide +kernel)⟩
  have hfollows := (preferences_precedence Toml.parse?).1 _ _ _ _ hloads
  exact ⟨entries, hloads, hfollows .leastLevel, hfollows .console, hfollows .positionInErrors⟩

end Settings

end PhpTokens
