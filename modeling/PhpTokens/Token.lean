import PhpTokens.Keyword
import PhpTokens.Operator
import PhpTokens.Text.Quoted

/-!
# Lexemes and tokens

A lexeme is a piece of source text with the type it was read as. Single
punctuation marks are read without a type; such a lexeme is called bare. A
token is a lexeme at a fixed index of a sequence, where a bare one has the type
of a name.
-/

namespace PhpTokens

/-- What a piece of source text is. -/
inductive TokenType where
  | openTag | openTagWithEcho | closeTag | inlineHtml
  | whitespace | comment | docComment
  | variableName | identifier | nsSeparator
  | stringLiteral | integerLiteral | floatLiteral
  | keyword (k : Keyword)
  | operator (o : Operator)
deriving DecidableEq, Repr

namespace TokenType

/-- The conventional name of a type. -/
def name : TokenType → String
  | .openTag => "T_OPEN_TAG"
  | .openTagWithEcho => "T_OPEN_TAG_WITH_ECHO"
  | .closeTag => "T_CLOSE_TAG"
  | .inlineHtml => "T_INLINE_HTML"
  | .whitespace => "T_WHITESPACE"
  | .comment => "T_COMMENT"
  | .docComment => "T_DOC_COMMENT"
  | .variableName => "T_VARIABLE"
  | .identifier => "T_STRING"
  | .nsSeparator => "T_NS_SEPARATOR"
  | .stringLiteral => "T_CONSTANT_ENCAPSED_STRING"
  | .integerLiteral => "T_LNUMBER"
  | .floatLiteral => "T_DNUMBER"
  | .keyword k => k.name
  | .operator o => o.name

/-- The reserved word of a reserved-word type. -/
def keyword? : TokenType → Option Keyword
  | .keyword k => some k
  | _ => none

/-- The operator of an operator type. -/
def operator? : TokenType → Option Operator
  | .operator o => some o
  | _ => none

end TokenType

/-- A piece of source text, with its type unless it is bare. -/
structure Lexeme where
  type? : Option TokenType
  text : String
deriving DecidableEq, Repr

namespace Lexeme

/-- A lexeme that was read as a type. -/
def typed (type : TokenType) (text : String) : Lexeme := ⟨some type, text⟩

/-- A lexeme without a type. -/
def bare (text : String) : Lexeme := ⟨none, text⟩

end Lexeme

/-- A lexeme at an index of a sequence. -/
structure Token where
  index : Nat
  type : TokenType
  content : String
deriving DecidableEq, Repr

namespace Token

/-- The token of a lexeme at an index: a bare one has the type of a name. -/
def ofLexeme (index : Nat) (l : Lexeme) : Token :=
  ⟨index, l.type?.getD .identifier, l.text⟩

/-- Whether the type is one of `types`. -/
def isType (t : Token) (types : List TokenType) : Bool := types.contains t.type

/-- Whether the content is one of `contents`, letter for letter. -/
def isContent (t : Token) (contents : List String) : Bool := contents.contains t.content

/-- Whether the token is a given reserved word. -/
def isKeyword (t : Token) (k : Keyword) : Bool := t.type.keyword? == some k

/-- A token as people write it: index, name and quoted content. -/
def toText (t : Token) : String :=
  "#" ++ toString t.index ++ " " ++ t.type.name ++ " " ++ Text.quoted t.content

end Token

end PhpTokens
