import PhpTokens.Token

/-!
# Trivia

Some types of token carry no meaning for the reader of a program. Which ones is
a choice: a trivia set lists them, in the order in which they were added. The
usual choice is blanks and comments.
-/

namespace PhpTokens

/-- The types that carry no meaning. -/
structure TriviaSet where
  types : List TokenType
deriving DecidableEq, Repr

namespace TriviaSet

/-- The set under which every token carries meaning. -/
def empty : TriviaSet := ⟨[]⟩

/-- Whether a type belongs to the set. -/
def contains (s : TriviaSet) (type : TokenType) : Bool := s.types.contains type

/-- The set with one more type, unless it has it already. -/
def insert (s : TriviaSet) (type : TokenType) : TriviaSet :=
  if s.contains type then s else ⟨s.types ++ [type]⟩

/-- The set of the types of a list, each where it occurs first. -/
def ofList (types : List TokenType) : TriviaSet := types.foldl insert empty

/-- Comments and blanks. -/
def default : TriviaSet := ofList [.comment, .docComment, .whitespace]

/-- Whether a token carries no meaning. -/
def isTrivia (s : TriviaSet) (t : Token) : Bool := t.isType s.types

end TriviaSet

end PhpTokens
