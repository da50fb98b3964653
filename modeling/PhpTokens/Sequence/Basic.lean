import PhpTokens.Lexer.Basic
import PhpTokens.Search
import PhpTokens.Sequence.Trivia

/-!
# Sequences of tokens

A sequence keeps every token of a source, trivia included, and beside them the
indices of the significant ones in increasing order. The nearest significant
token on either side of an index is then found by searching those indices, and
not by walking through the tokens.
-/

namespace PhpTokens

/-- Which way a search goes. -/
inductive Direction where
  | backward | forward
deriving DecidableEq, Repr

namespace Direction

/-- The way as a message gives it. -/
def preposition : Direction → String
  | .backward => "before"
  | .forward => "after"

/-- What a step adds to the index. -/
def step : Direction → Int
  | .backward => -1
  | .forward => 1

/-- The name under which a direction is written in records. -/
def label : Direction → String
  | .backward => "Backward"
  | .forward => "Forward"

/-- The direction that a record names. -/
def ofLabel? (label : String) : Option Direction :=
  [Direction.backward, .forward].find? fun d => d.label = label

end Direction

/-- Why a query has no answer. -/
inductive SearchError where
  | indexOutOfBounds (count : Nat) (index : Int)
  | noSignificantToken (direction : Direction) (index : Int)
deriving DecidableEq, Repr

namespace SearchError

/-- The index that was asked about. -/
def index : SearchError → Int
  | .indexOutOfBounds _ i => i
  | .noSignificantToken _ i => i

/-- Number of tokens, if the index was outside. -/
def count? : SearchError → Option Nat
  | .indexOutOfBounds n _ => some n
  | .noSignificantToken .. => none

/-- Which way the search went, if there was one. -/
def direction? : SearchError → Option Direction
  | .indexOutOfBounds .. => none
  | .noSignificantToken d _ => some d

/-- The error as people read it. -/
def message : SearchError → String
  | .indexOutOfBounds n i =>
      "Index needs to be equal to or greater than \"0\" and less than \"" ++ toString n ++
        "\", but \"" ++ toString i ++ "\" is not."
  | .noSignificantToken d i =>
      "Could not find a significant token " ++ d.preposition ++ " index \"" ++ toString i ++ "\"."

/-- The code under which the error is reported. -/
def code : SearchError → Code
  | .indexOutOfBounds .. => .indexOutOfBounds
  | .noSignificantToken .. => .noSignificantToken

end SearchError

/-- Tokens with the indices of the significant ones. -/
structure Sequence where
  tokens : Array Token
  significant : Array Nat
  trivia : TriviaSet
deriving DecidableEq, Repr

namespace Sequence

/-- The indices of the tokens that are no trivia, in increasing order. -/
def significantIndices (trivia : TriviaSet) (tokens : Array Token) : Array Nat :=
  (tokens.filter fun t => !trivia.isTrivia t).map Token.index

/-- The sequence of some lexemes under a trivia set. -/
def assemble (lexemes : Array Lexeme) (trivia : TriviaSet) : Sequence :=
  let tokens := lexemes.mapIdx Token.ofLexeme
  ⟨tokens, significantIndices trivia tokens, trivia⟩

/-- The sequence of some lexemes, with the usual trivia. -/
def ofLexemes (lexemes : Array Lexeme) : Sequence := assemble lexemes .default

/-- The same tokens under another trivia set. -/
def withTrivia (s : Sequence) (trivia : TriviaSet) : Sequence :=
  ⟨s.tokens, significantIndices trivia s.tokens, trivia⟩

/-- Number of tokens. -/
def size (s : Sequence) : Nat := s.tokens.size

/-- The token at an index. -/
def get? (s : Sequence) (index : Nat) : Option Token := s.tokens[index]?

/-- The place of an index among the tokens. -/
def position (s : Sequence) (index : Int) : Except SearchError Nat :=
  if 0 ≤ index ∧ index < s.size then .ok index.toNat
  else .error (.indexOutOfBounds s.size index)

/-- The token at an index that may lie anywhere. -/
def at? (s : Sequence) (index : Int) : Except SearchError Token :=
  match s.position index with
  | .error e => .error e
  | .ok i =>
      match s.get? i with
      | some t => .ok t
      | none => .error (.indexOutOfBounds s.size index)

/-- The nearest significant index strictly on one side of `start`. -/
def nearest? (s : Sequence) (start : Nat) : Direction → Option Nat
  | .backward =>
      match Search.partitionPoint s.significant (· < start) with
      | 0 => none
      | k + 1 => s.significant[k]?
  | .forward => s.significant[Search.partitionPoint s.significant (· ≤ start)]?

/-- The nearest significant token strictly on one side of an index. -/
def significantIn (s : Sequence) (direction : Direction) (index : Int) :
    Except SearchError Token :=
  match s.position index with
  | .error e => .error e
  | .ok start =>
      match (s.nearest? start direction).bind s.get? with
      | some t => .ok t
      | none => .error (.noSignificantToken direction index)

/-- The nearest significant token after an index. -/
def significantAfter (s : Sequence) (index : Int) : Except SearchError Token :=
  s.significantIn .forward index

/-- The nearest significant token before an index. -/
def significantBefore (s : Sequence) (index : Int) : Except SearchError Token :=
  s.significantIn .backward index

/-- The significant tokens met by searching on from an index until a search
fails, and how it failed. There are at most `fuel` searches that succeed. -/
def walkFrom (s : Sequence) (direction : Direction) (index : Int) :
    Nat → Array Nat → Array Nat × SearchError
  | 0, hits => (hits, .noSignificantToken direction index)
  | fuel + 1, hits =>
      match s.significantIn direction index with
      | .ok t => s.walkFrom direction t.index fuel (hits.push t.index)
      | .error e => (hits, e)

/-- The indices met by searching on from an index until a search fails, and how
it failed. -/
def walk (s : Sequence) (direction : Direction) (index : Int) : Array Nat × SearchError :=
  s.walkFrom direction index (s.significant.size + 1) #[]

end Sequence

end PhpTokens
