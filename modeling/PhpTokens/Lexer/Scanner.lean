import PhpTokens.Lexer.Cut
import PhpTokens.Lexer.Metrics

/-!
# Cutting a whole source

The scanner holds the text not yet read and what the next cut depends on: the
position, whether the text is code, and whether a name is expected. It takes
one lexeme at a time until the text ends or a cut fails. Each lexeme is counted
as it is taken, and the lexemes and counts before a failure are kept. It ends
because every lexeme has at least one character.
-/

namespace PhpTokens.Lexer

/-- A source part way through. -/
structure Scanner where
  rest : List Char
  position : Position := .start
  inCode : Bool := false
  nameExpected : Bool := false
  detailed : Bool := true
  lexemes : Array Lexeme := #[]
  metrics : Metrics := {}
deriving DecidableEq, Repr

namespace Scanner

/-- Whether the next word is a name even if it is reserved, after one more
lexeme. Blanks and comments change nothing, nor does a reference mark. -/
def expectsName (before : Bool) (l : Lexeme) : Bool :=
  match l.type? with
  | some .whitespace | some .comment | some .docComment => before
  | some (.operator o) => o.introducesMember
  | some (.keyword k) => k.introducesName
  | none => if l.text = "&" then before else false
  | _ => false

/-- Whether the text is code, after one more lexeme. -/
def entersCode (before : Bool) (type? : Option TokenType) : Bool :=
  match type? with
  | some .openTag | some .openTagWithEcho => true
  | some .closeTag => false
  | _ => before

variable [Limits]

/-- The next lexeme of a text that begins with `c` and goes on with `cs`. -/
def cut (s : Scanner) (c : Char) (cs : List Char) : Except LexError Cut :=
  if s.inCode then cutCode s.position s.nameExpected c cs else .ok (cutTemplate (c :: cs))

/-- The next lexeme, if there may be one more. Its own faults come before their
number. -/
def next (s : Scanner) (c : Char) (cs : List Char) : Except LexError Cut :=
  match s.cut c cs with
  | .error e => .error e
  | .ok cut =>
      if Limits.tokens ≤ s.lexemes.size then .error (.tooManyTokens (s.lexemes.size + 1))
      else .ok cut

/-- The scanner after a lexeme has been taken from its text. -/
def take (s : Scanner) (cut : Cut) : Scanner :=
  let text := s.rest.take cut.length
  let lexeme : Lexeme := ⟨cut.type?, String.ofList text⟩
  { rest := s.rest.drop cut.length
    position := s.position.advanceBy text
    inCode := entersCode s.inCode cut.type?
    nameExpected := expectsName s.nameExpected lexeme
    detailed := s.detailed
    lexemes := s.lexemes.push lexeme
    metrics := s.metrics.record s.detailed lexeme }

theorem cut_length_pos {s : Scanner} {c : Char} {cs : List Char} {cut : Cut}
    (h : s.cut c cs = .ok cut) : 0 < cut.length := by
  unfold Scanner.cut at h
  split at h
  · exact cutCode_length_pos h
  · cases h
    exact cutTemplate_length_pos c cs

theorem next_length_pos {s : Scanner} {c : Char} {cs : List Char} {cut : Cut}
    (h : s.next c cs = .ok cut) : 0 < cut.length := by
  unfold next at h
  split at h
  · cases h
  · next hcut =>
      split at h
      · cases h
      · cases h
        exact cut_length_pos hcut

theorem take_rest_length_lt {s : Scanner} {c : Char} {cs : List Char} {cut : Cut}
    (hrest : s.rest = c :: cs) (h : s.next c cs = .ok cut) :
    (s.take cut).rest.length < s.rest.length := by
  have := next_length_pos h
  simp only [take, List.length_drop, hrest, List.length_cons]
  omega

/-- The scanner at the end of its text, or at the first failure. -/
def run (s : Scanner) : Scanner × Option LexError :=
  match _hrest : s.rest with
  | [] => (s, none)
  | c :: cs =>
      match _hnext : s.next c cs with
      | .error e => (s, some e)
      | .ok cut => (s.take cut).run
termination_by s.rest.length
decreasing_by exact take_rest_length_lt _hrest _hnext

end Scanner

/-- How cutting a source ended. -/
structure Outcome where
  lexemes : Array Lexeme
  position : Position
  error? : Option LexError
  metrics : Metrics
deriving DecidableEq, Repr

/-- Cut a source into lexemes, and count the reserved words one by one if `detailed`. -/
def scan [Limits] (source : String) (detailed : Bool := true) : Outcome :=
  let (s, error?) := Scanner.run { rest := source.toList, detailed }
  ⟨s.lexemes, s.position, error?, s.metrics⟩

end PhpTokens.Lexer
