import PhpTokens.Token

/-!
# Counting lexemes

A run is summed up by how many lexemes of each kind it read and how long the
longest comment and the longest string literal are. On demand the occurrences
of every reserved word are counted too.
-/

namespace PhpTokens.Lexer

/-- What a run read. -/
structure Metrics where
  total : Nat := 0
  keywords : Nat := 0
  identifiers : Nat := 0
  operators : Nat := 0
  bare : Nat := 0
  whitespace : Nat := 0
  comments : Nat := 0
  docComments : Nat := 0
  longestString : Nat := 0
  longestComment : Nat := 0
  invalidCharacters : Nat := 0
  usage : List (Keyword × Nat) := []
deriving DecidableEq, Repr

namespace Metrics

/-- One more occurrence of a reserved word. -/
def countUse (k : Keyword) : List (Keyword × Nat) → List (Keyword × Nat)
  | [] => [(k, 1)]
  | (j, n) :: rest => if j = k then (j, n + 1) :: rest else (j, n) :: countUse k rest

/-- The counts after one more lexeme. -/
def record (detailed : Bool) (m : Metrics) (l : Lexeme) : Metrics :=
  let m := { m with total := m.total + 1 }
  match l.type? with
  | none => { m with bare := m.bare + 1 }
  | some (.keyword k) =>
      { m with
        keywords := m.keywords + 1
        usage := if detailed then countUse k m.usage else m.usage }
  | some .identifier => { m with identifiers := m.identifiers + 1 }
  | some (.operator _) => { m with operators := m.operators + 1 }
  | some .whitespace => { m with whitespace := m.whitespace + 1 }
  | some .comment =>
      { m with
        comments := m.comments + 1
        longestComment := max m.longestComment l.text.utf8ByteSize }
  | some .docComment =>
      { m with
        docComments := m.docComments + 1
        longestComment := max m.longestComment l.text.utf8ByteSize }
  | some .stringLiteral => { m with longestString := max m.longestString l.text.utf8ByteSize }
  | some _ => m

/-- The counts after an invalid character. -/
def recordInvalid (m : Metrics) : Metrics :=
  { m with invalidCharacters := m.invalidCharacters + 1 }

/-- Number of lexemes that are neither blanks nor comments. -/
def significant (m : Metrics) : Nat := m.total - m.whitespace - m.comments - m.docComments

end Metrics

end PhpTokens.Lexer
