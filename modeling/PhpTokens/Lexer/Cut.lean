import PhpTokens.Lexer.Comment
import PhpTokens.Lexer.Error
import PhpTokens.Lexer.Literal
import PhpTokens.Lexer.Number
import PhpTokens.Lexer.Tag
import PhpTokens.Position

/-!
# The next lexeme

A cut says what the text at hand begins with and how many characters belong to
it. Outside code that is template text or an open tag. In code the first
character, sometimes with the second, decides which kind of lexeme is read. A
cut is never empty, which `cutTemplate_length_pos` and `cutCode_length_pos`
record: it is what makes cutting a whole source end.
-/

namespace PhpTokens.Lexer

/-- What a text begins with: the type, none for a bare mark, and the number of
characters. -/
structure Cut where
  type? : Option TokenType
  length : Nat
deriving DecidableEq, Repr

/-- The next lexeme outside code. -/
def cutTemplate (cs : List Char) : Cut :=
  match openTag? cs with
  | some (type, n) => ⟨some type, n⟩
  | none => ⟨some .inlineHtml, templateLength cs⟩

/-- A comment of `n` characters, unless it is above the limit. -/
def cutComment [Limits] (type : TokenType) (n : Nat) (cs : List Char) : Except LexError Cut :=
  let size := Text.byteLength (cs.take n)
  if Limits.commentBytes < size then .error (.commentTooLong size)
  else .ok ⟨some type, n⟩

/-- A block comment. -/
def cutBlockComment [Limits] (pos : Position) (cs : List Char) : Except LexError Cut :=
  match blockCommentLength? cs with
  | none => .error (.unterminatedComment pos.line pos.column)
  | some n => cutComment (if isDocComment cs then .docComment else .comment) n cs

/-- A string literal of `n?` characters, if it ends and is not above the
limit. -/
def cutString [Limits] (pos : Position) (n? : Option Nat) (cs : List Char) : Except LexError Cut :=
  match n? with
  | none => .error (.unterminatedString pos.line pos.column)
  | some n =>
      let size := Text.byteLength (cs.take n)
      if Limits.stringBytes < size then .error (.stringTooLarge size)
      else .ok ⟨some .stringLiteral, n⟩

/-- A variable whose name begins after its dollar sign. -/
def cutVariable [Limits] (cs : List Char) : Except LexError Cut :=
  let name := (cs.drop 1).takeWhile isNameChar
  let size := Text.byteLength name
  if Limits.nameBytes < size then .error (.identifierTooLong size)
  else .ok ⟨some .variableName, 1 + name.length⟩

/-- The type of a word: a reserved word is a name where a name is expected. -/
def wordType (nameExpected : Bool) (word : List Char) : TokenType :=
  match Keyword.ofWord? (String.ofList word) with
  | some k => if nameExpected then .identifier else .keyword k
  | none => .identifier

/-- A word: a name or a reserved word. -/
def cutWord [Limits] (nameExpected : Bool) (cs : List Char) : Except LexError Cut :=
  let word := cs.takeWhile isNameChar
  let size := Text.byteLength word
  if Limits.nameBytes < size then .error (.identifierTooLong size)
  else .ok ⟨some (wordType nameExpected word), word.length⟩

/-- An operator, or else a punctuation mark. -/
def cutMark (pos : Position) (c : Char) (cs : List Char) : Except LexError Cut :=
  match Operator.leading? (c :: cs) with
  | some (o, n) => .ok ⟨some (.operator o), n⟩
  | none =>
      if isPunctuation c then .ok ⟨none, 1⟩
      else .error (.invalidCharacter c pos.line pos.column)

/-- The next lexeme in code, where the text begins with `c` and goes on with
`cs`. -/
def cutCode [Limits] (pos : Position) (nameExpected : Bool) (c : Char) (cs : List Char) :
    Except LexError Cut :=
  let text := c :: cs
  match closeTagLength? text with
  | some n => .ok ⟨some .closeTag, n⟩
  | none =>
    if isBlank c then .ok ⟨some .whitespace, runLength isBlank text⟩
    else if c = '#' then cutComment .comment (lineCommentLength 1 text) text
    else if c = '/' ∧ cs.head? = some '/' then
      cutComment .comment (lineCommentLength 2 text) text
    else if c = '/' ∧ cs.head? = some '*' then cutBlockComment pos text
    else if c = '$' ∧ cs.head?.any isNameStart then cutVariable text
    else if isNameStart c then cutWord nameExpected text
    else if c = '\\' then .ok ⟨some .nsSeparator, 1⟩
    else if c.isDigit ∨ (c = '.' ∧ cs.head?.any Char.isDigit) then
      let (type, n) := number text
      .ok ⟨some type, n⟩
    else if c = '\'' ∨ c = '"' then cutString pos (quotedLength? text) text
    else
      match heredocHeader? text with
      | some (n, label) =>
          cutString pos ((heredocBodyLength? label (text.drop n)).map (n + ·)) text
      | none => cutMark pos c cs

theorem cutTemplate_length_pos (c : Char) (cs : List Char) : 0 < (cutTemplate (c :: cs)).length := by
  unfold cutTemplate
  split
  · next h => exact openTag?_length_pos h
  · next h => exact templateLength_pos h

theorem cutComment_length [Limits] {type : TokenType} {n : Nat} {cs : List Char} {cut : Cut}
    (h : cutComment type n cs = .ok cut) : cut.length = n := by
  unfold cutComment at h
  grind

theorem cutString_length_pos [Limits] {pos : Position} {n? : Option Nat} {cs : List Char}
    {cut : Cut}
    (hn : ∀ n, n? = some n → 0 < n) (h : cutString pos n? cs = .ok cut) : 0 < cut.length := by
  unfold cutString at h
  grind

theorem cutMark_length_pos {pos : Position} {c : Char} {cs : List Char} {cut : Cut}
    (h : cutMark pos c cs = .ok cut) : 0 < cut.length := by
  unfold cutMark at h
  split at h
  · next o n ho =>
      have := Operator.mem_lengths.1 (Operator.leading?_length ho)
      grind
  · grind

/-- Every lexeme in code has at least one character. -/
theorem cutCode_length_pos [Limits] {pos : Position} {nameExpected : Bool} {c : Char}
    {cs : List Char}
    {cut : Cut} (h : cutCode pos nameExpected c cs = .ok cut) : 0 < cut.length := by
  unfold cutCode at h
  simp only [] at h
  split at h
  · next n hn =>
      unfold closeTagLength? at hn
      grind
  · split at h
    · next hb =>
        have : 0 < runLength isBlank (c :: cs) := runLength_pos hb
        grind
    · split at h
      · rw [cutComment_length h]
        exact Nat.lt_of_lt_of_le (by decide) (le_lineCommentLength 1 (c :: cs))
      · split at h
        · rw [cutComment_length h]
          exact Nat.lt_of_lt_of_le (by decide) (le_lineCommentLength 2 (c :: cs))
        · split at h
          · unfold cutBlockComment at h
            split at h
            · cases h
            · next n hn =>
                rw [cutComment_length h]
                exact blockCommentLength?_pos hn
          · split at h
            · unfold cutVariable at h
              grind
            · split at h
              · next hs =>
                  have : 0 < (List.takeWhile isNameChar (c :: cs)).length :=
                    runLength_pos (by simp [isNameChar, hs])
                  unfold cutWord at h
                  grind
              · split at h
                · grind
                · split at h
                  · next hd =>
                      have : 0 < (number (c :: cs)).2 := number_length_pos (by simpa using hd)
                      grind
                  · split at h
                    · exact cutString_length_pos (fun n hn => quotedLength?_pos hn) h
                    · split at h
                      · next n label hh =>
                          refine cutString_length_pos (fun k hk => ?_) h
                          have := heredocHeader?_length_pos hh
                          simp only [Option.map_eq_some_iff] at hk
                          obtain ⟨_, _, rfl⟩ := hk
                          omega
                      · exact cutMark_length_pos h

end PhpTokens.Lexer
