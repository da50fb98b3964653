import PhpTokens.Record.Codec
import PhpTokens.Sequence.Trivia

/-!
# Records of tokens

Reserved words, operators and plain token types are constants; the type of a
reserved word or an operator is a record with one field. A lexeme is either
bare, and then its text, or typed, and then a record of type and text.
-/

namespace PhpTokens

instance : Codec Keyword where
  encode k := .text k.label
  decode? := Codec.constant? Keyword.ofLabel?

instance : Codec Operator where
  encode o := .text o.label
  decode? := Codec.constant? Operator.ofLabel?

namespace TokenType

/-- The token types that are constants, with their names in records. -/
def constants : List (String × TokenType) := [
  ("OpenTag", .openTag), ("OpenTagWithEcho", .openTagWithEcho), ("CloseTag", .closeTag),
  ("InlineHtml", .inlineHtml), ("Whitespace", .whitespace), ("Comment", .comment),
  ("DocComment", .docComment), ("Variable", .variableName), ("Identifier", .identifier),
  ("NsSeparator", .nsSeparator), ("StringLiteral", .stringLiteral),
  ("IntegerLiteral", .integerLiteral), ("FloatLiteral", .floatLiteral)]

/-- The plain data of a token type. -/
def encode : TokenType → Datum
  | .openTag => .text "OpenTag"
  | .openTagWithEcho => .text "OpenTagWithEcho"
  | .closeTag => .text "CloseTag"
  | .inlineHtml => .text "InlineHtml"
  | .whitespace => .text "Whitespace"
  | .comment => .text "Comment"
  | .docComment => .text "DocComment"
  | .variableName => .text "Variable"
  | .identifier => .text "Identifier"
  | .nsSeparator => .text "NsSeparator"
  | .stringLiteral => .text "StringLiteral"
  | .integerLiteral => .text "IntegerLiteral"
  | .floatLiteral => .text "FloatLiteral"
  | .keyword k => .record [("Keyword", Codec.encode k)]
  | .operator o => .record [("Operator", Codec.encode o)]

/-- The token type of plain data. -/
def decode? : Datum → Option TokenType
  | .record [("Keyword", d)] => (Codec.decode? d).map .keyword
  | .record [("Operator", d)] => (Codec.decode? d).map .operator
  | d => Codec.constant? (fun s => constants.lookup s) d

instance : Codec TokenType := ⟨encode, decode?⟩

end TokenType

namespace Lexeme

/-- The plain data of a lexeme. -/
def encode (l : Lexeme) : Datum :=
  match l.type? with
  | some type =>
      .record [("Typed", .record [("token_type", type.encode), ("text", .text l.text)])]
  | none => .record [("Bare", .text l.text)]

/-- The lexeme of plain data. A typed one is a record, never a list. -/
def decode? : Datum → Option Lexeme
  | .record [("Typed", .record fields)] => do
      let type ← Codec.field? TokenType.decode? fields "token_type"
      let text ← Codec.field? Codec.text? fields "text"
      return .typed type text
  | .record [("Bare", .text s)] => some (.bare s)
  | _ => none

instance : Codec Lexeme := ⟨encode, decode?⟩

end Lexeme

namespace Token

/-- The plain data of a token. -/
def encode (t : Token) : Datum :=
  .record [("index", .nat t.index), ("token_type", t.type.encode), ("content", .text t.content)]

/-- The token of plain data. -/
def decode? : Datum → Option Token
  | .record fields => do
      let index ← Codec.field? (Codec.natBelow? wordBound) fields "index"
      let type ← Codec.field? TokenType.decode? fields "token_type"
      let content ← Codec.field? Codec.text? fields "content"
      return ⟨index, type, content⟩
  | .list [i, t, c] => do
      let index ← Codec.natBelow? wordBound i
      let type ← TokenType.decode? t
      let content ← Codec.text? c
      return ⟨index, type, content⟩
  | _ => none

instance : Codec Token := ⟨encode, decode?⟩

end Token

namespace TriviaSet

/-- The plain data of a trivia set. -/
def encode (s : TriviaSet) : Datum :=
  .record [("types", .list (s.types.map TokenType.encode))]

/-- The token types of a list. -/
def decodeTypes? : Datum → Option (List TokenType)
  | .list items => items.mapM TokenType.decode?
  | _ => none

/-- The trivia set of plain data, with every type as often as it is given. -/
def decode? : Datum → Option TriviaSet
  | .record fields => (Codec.field? decodeTypes? fields "types").map TriviaSet.mk
  | .list [types] => (decodeTypes? types).map TriviaSet.mk
  | _ => none

instance : Codec TriviaSet := ⟨encode, decode?⟩

end TriviaSet

end PhpTokens
