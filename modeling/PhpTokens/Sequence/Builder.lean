import PhpTokens.Sequence.Basic

/-!
# Assembling a sequence piece by piece

A builder collects lexemes in order; the trivia set may be chosen at any time,
and the last choice counts.
-/

namespace PhpTokens.Sequence

/-- A sequence part way through its assembly. -/
structure Builder where
  lexemes : Array Lexeme := #[]
  trivia : TriviaSet := .default
deriving DecidableEq, Repr

namespace Builder

/-- The builder with one more lexeme. -/
def push (b : Builder) (l : Lexeme) : Builder := { b with lexemes := b.lexemes.push l }

/-- The builder with one more lexeme of a type. -/
def pushTyped (b : Builder) (type : TokenType) (text : String) : Builder := b.push (.typed type text)

/-- The builder with one more bare lexeme. -/
def pushBare (b : Builder) (text : String) : Builder := b.push (.bare text)

/-- The builder with another choice of trivia. -/
def withTrivia (b : Builder) (trivia : TriviaSet) : Builder := { b with trivia }

/-- The finished sequence. -/
def build (b : Builder) : Sequence := assemble b.lexemes b.trivia

end Builder

/-- What a builder can be asked to do. -/
inductive BuilderCall where
  | typed (type : TokenType) (text : String)
  | bare (text : String)
  | lexeme (l : Lexeme)
  | trivia (set : TriviaSet)
deriving DecidableEq, Repr

/-- The builder after a call. -/
def BuilderCall.apply (b : Builder) : BuilderCall → Builder
  | .typed type text => b.pushTyped type text
  | .bare text => b.pushBare text
  | .lexeme l => b.push l
  | .trivia set => b.withTrivia set

end PhpTokens.Sequence
