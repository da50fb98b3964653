import PhpTokens.Proofs.ByteNumber
import PhpTokens.Proofs.NumberGrammar

/-!
# The next lexeme in code, measured over bytes

`codeByteCut` makes the tests of `cutCode`, in its order, on a text that is reached
by slices, and answers with a number of bytes. Every kind of lexeme is measured by
a function that gives the bytes of its extent in characters, so the two answer the
same (`codeByteCut_eq`): `Cut.inBytes` turns the one answer into the other.
-/

namespace PhpTokens.Lexer

/-- What a text begins with: the type, none for a bare mark, and the number of bytes. -/
structure ByteCut where
  type? : Option TokenType
  size : Nat
deriving DecidableEq, Repr

/-- A lexeme of so many bytes, unless it is above a limit. -/
def sizedCut (limit : Nat) (tooLong : Nat → LexError) (type : TokenType) (size : Nat) :
    Except Halt ByteCut :=
  if limit < size then .error (.refused (tooLong size)) else .ok ⟨some type, size⟩

/-- A close tag with its line break. -/
def closeTagByteCut (text : List Char) : Except Halt ByteCut := do
  let after ← sliceFrom text 2
  return ⟨some .closeTag, 2 + lineBreakLength after⟩

/-- A line comment whose mark has `mark` bytes. -/
def lineCommentByteCut [Limits] (mark : Nat) (text : List Char) : Except Halt ByteCut := do
  let size ← lineCommentBytes mark text
  sizedCut Limits.commentBytes .commentTooLong .comment size

/-- A block comment. -/
def blockCommentByteCut [Limits] (pos : Position) (text : List Char) : Except Halt ByteCut := do
  match ← blockCommentBytes? text with
  | none => .error (.refused (.unterminatedComment pos.line pos.column))
  | some size =>
      let isDoc ← isDocBytes text
      sizedCut Limits.commentBytes .commentTooLong (if isDoc then .docComment else .comment) size

/-- A variable whose name begins after its dollar sign. -/
def variableByteCut [Limits] (text : List Char) : Except Halt ByteCut := do
  let name ← sliceFrom text 1
  let size := runBytes isNameChar name
  if Limits.nameBytes < size then .error (.refused (.identifierTooLong size))
  else return ⟨some .variableName, 1 + size⟩

/-- A word: a name or a reserved word. -/
def wordByteCut [Limits] (nameExpected : Bool) (text : List Char) : Except Halt ByteCut := do
  let size := runBytes isNameChar text
  let word ← sliceTo text size
  sizedCut Limits.nameBytes .identifierTooLong (wordType nameExpected word) size

/-- A string literal, if it ends. -/
def stringByteCut [Limits] (pos : Position) (size? : Option Nat) : Except Halt ByteCut :=
  match size? with
  | none => .error (.refused (.unterminatedString pos.line pos.column))
  | some size => sizedCut Limits.stringBytes .stringTooLarge .stringLiteral size

/-- A heredoc behind a header of so many bytes. -/
def heredocByteCut [Limits] (pos : Position) (header : Nat) (label text : List Char) :
    Except Halt ByteCut := do
  let body ← sliceFrom text header
  let size? ← heredocBodyBytes? label body
  stringByteCut pos (size?.map (header + ·))

/-- An operator, or else a punctuation mark. -/
def markByteCut (pos : Position) (c : Char) (text : List Char) : Except Halt ByteCut :=
  match operatorBytes? text with
  | some (o, size) => .ok ⟨some (.operator o), size⟩
  | none =>
      if isPunctuation c then .ok ⟨none, 1⟩
      else .error (.refused (.invalidCharacter c pos.line pos.column))

/-- The next lexeme in code, where the text begins with `c` and goes on with `cs`. -/
def codeByteCut [Limits] (pos : Position) (nameExpected : Bool) (c : Char) (cs : List Char) :
    Except Halt ByteCut :=
  let text := c :: cs
  if ['?', '>'].isPrefixOf text then closeTagByteCut text
  else if isBlank c then .ok ⟨some .whitespace, runBytes isBlank text⟩
  else if c = '#' then lineCommentByteCut 1 text
  else if c = '/' ∧ cs.head? = some '/' then lineCommentByteCut 2 text
  else if c = '/' ∧ cs.head? = some '*' then blockCommentByteCut pos text
  else if c = '$' ∧ cs.head?.any isNameStart then variableByteCut text
  else if isNameStart c then wordByteCut nameExpected text
  else if c = '\\' then .ok ⟨some .nsSeparator, 1⟩
  else if c.isDigit ∨ (c = '.' ∧ cs.head?.any Char.isDigit) then do
    let (type, size) ← numberBytes text
    return ⟨some type, size⟩
  else if c = '\'' ∨ c = '"' then stringByteCut pos (quotedBytes? c text)
  else do
    match ← heredocHeaderBytes? text with
    | some (header, label) => heredocByteCut pos header label text
    | none => markByteCut pos c text

/-- A lexeme cut from a text, or the reason why there is none, measured in bytes. -/
def Cut.inBytes (text : List Char) : Except LexError Cut → Except Halt ByteCut
  | .ok cut => .ok ⟨cut.type?, Text.byteLength (text.take cut.length)⟩
  | .error e => .error (.refused e)

open Cut (inBytes)

theorem inBytes_cutComment [Limits] (type : TokenType) (n : Nat) (text : List Char) :
    inBytes text (cutComment type n text) =
      sizedCut Limits.commentBytes .commentTooLong type (Text.byteLength (text.take n)) := by
  simp only [cutComment, sizedCut]
  split <;> rfl

theorem inBytes_cutString [Limits] (pos : Position) (n? : Option Nat) (text : List Char) :
    inBytes text (cutString pos n? text) =
      stringByteCut pos (n?.map fun n => Text.byteLength (text.take n)) := by
  cases n? with
  | none => rfl
  | some n =>
      simp only [cutString, stringByteCut, sizedCut, Option.map_some]
      split <;> rfl

theorem OpensLineComment.lineCommentByteCut_eq [Limits] {c : Char} {cs : List Char} {mark : Nat}
    (h : OpensLineComment c cs mark) :
    lineCommentByteCut mark (c :: cs) =
      inBytes (c :: cs) (cutComment .comment (lineCommentLength mark (c :: cs)) (c :: cs)) := by
  rw [inBytes_cutComment, lineCommentByteCut, lineCommentBytes_eq h, ok_bind]

theorem blockCommentByteCut_eq [Limits] (pos : Position) (cs : List Char) :
    blockCommentByteCut pos ('/' :: '*' :: cs) =
      inBytes ('/' :: '*' :: cs) (cutBlockComment pos ('/' :: '*' :: cs)) := by
  rw [blockCommentByteCut, blockCommentBytes?_eq, ok_bind, cutBlockComment]
  cases blockCommentLength? ('/' :: '*' :: cs) with
  | none => rfl
  | some n =>
      change (isDocBytes ('/' :: '*' :: cs) >>= _) = inBytes _ (cutComment _ n _)
      rw [isDocBytes_eq, ok_bind, inBytes_cutComment]

theorem variableByteCut_eq [Limits] (cs : List Char) :
    variableByteCut ('$' :: cs) = inBytes ('$' :: cs) (cutVariable ('$' :: cs)) := by
  have hslice : sliceFrom ('$' :: cs) 1 = .ok cs := sliceFrom_append ['$'] cs
  rw [variableByteCut, hslice, ok_bind]
  simp only [cutVariable, List.drop_one, List.tail_cons]
  by_cases hsize : Limits.nameBytes < runBytes isNameChar cs
  · rw [if_pos hsize, ← runBytes, if_pos hsize]
    rfl
  · rw [if_neg hsize, ← runBytes, if_neg hsize, inBytes,
      Nat.add_comm 1 (cs.takeWhile isNameChar).length, List.take_succ_cons,
      take_length_takeWhile, Text.byteLength_cons]
    rfl

theorem wordByteCut_eq [Limits] (nameExpected : Bool) (cs : List Char) :
    wordByteCut nameExpected cs = inBytes cs (cutWord nameExpected cs) := by
  have hslice : sliceTo cs (runBytes isNameChar cs) = .ok (cs.takeWhile isNameChar) := by
    have hslice := sliceTo_append (cs.takeWhile isNameChar) (cs.dropWhile isNameChar)
    rwa [List.takeWhile_append_dropWhile] at hslice
  rw [wordByteCut, hslice, ok_bind]
  simp only [cutWord, sizedCut]
  by_cases hsize : Limits.nameBytes < runBytes isNameChar cs
  · rw [if_pos hsize, ← runBytes, if_pos hsize]
    rfl
  · rw [if_neg hsize, ← runBytes, if_neg hsize, inBytes, take_length_takeWhile]
    rfl

theorem heredocByteCut_eq [Limits] (pos : Position) (cs label : List Char) (n : Nat) :
    heredocByteCut pos (Text.byteLength (cs.take n)) label cs =
      inBytes cs (cutString pos ((heredocBodyLength? label (cs.drop n)).map (n + ·)) cs) := by
  have hslice : sliceFrom cs (Text.byteLength (cs.take n)) = .ok (cs.drop n) := by
    have hslice := sliceFrom_append (cs.take n) (cs.drop n)
    rwa [List.take_append_drop] at hslice
  rw [heredocByteCut, hslice, ok_bind, heredocBodyBytes?_eq, ok_bind, inBytes_cutString,
    Option.map_map, Option.map_map]
  refine congrArg (fun f => stringByteCut pos (Option.map f _)) (funext fun k => ?_)
  rw [Function.comp_apply, Function.comp_apply, List.take_add, Text.byteLength_append]

theorem byteLength_take_leading? {cs : List Char} {o : Operator} {n : Nat}
    (h : Operator.leading? cs = some (o, n)) : Text.byteLength (cs.take n) = n := by
  obtain ⟨t, rfl, -, hlongest⟩ := Operator.isLongest_of_leading? h
  obtain ⟨rest, rfl⟩ := hlongest.head
  rw [List.take_left, byteLength_of_isSymbol hlongest.holds]

theorem utf8Size_of_isPunctuation {c : Char} (h : isPunctuation c = true) : c.utf8Size = 1 := by
  have hrange := isPunctuation_iff.1 h
  exact Text.utf8Size_eq_one (by omega)

theorem markByteCut_eq (pos : Position) (c : Char) (cs : List Char) :
    markByteCut pos c (c :: cs) = inBytes (c :: cs) (cutMark pos c cs) := by
  rw [markByteCut, operatorBytes?_eq, cutMark]
  cases ho : Operator.leading? (c :: cs) with
  | some found =>
      obtain ⟨o, n⟩ := found
      change _ = Except.ok (ByteCut.mk _ (Text.byteLength ((c :: cs).take n)))
      rw [byteLength_take_leading? ho]
  | none =>
      simp only []
      by_cases hc : isPunctuation c = true
      · rw [if_pos hc, if_pos hc, inBytes, List.take_succ_cons, List.take_zero,
          Text.byteLength_cons, utf8Size_of_isPunctuation hc]
        rfl
      · rw [if_neg hc, if_neg hc]
        rfl

theorem byteLength_take_number {cs : List Char} (h : OpensNumber cs) :
    Text.byteLength (cs.take (number cs).2) = (number cs).2 := by
  obtain ⟨type, t, hnumber, -, hlongest⟩ := number_spec h
  obtain ⟨rest, rfl⟩ := hlongest.head
  rw [hnumber, List.take_left, hlongest.holds.byteLength_eq]

theorem isPrefixOf_close_iff {c : Char} {cs : List Char} :
    ['?', '>'].isPrefixOf (c :: cs) = true ↔ c = '?' ∧ cs.head? = some '>' := by
  rw [List.isPrefixOf_iff_prefix, List.cons_prefix_cons, eq_comm]
  refine and_congr_right fun _ => ?_
  cases cs with
  | nil => simp
  | cons d cs => simp [List.cons_prefix_cons, eq_comm]

theorem closeTagByteCut_eq (after : List Char) :
    closeTagByteCut ('?' :: '>' :: after) =
      inBytes ('?' :: '>' :: after) (.ok ⟨some .closeTag, 2 + lineBreakLength after⟩) := by
  have hslice : sliceFrom ('?' :: '>' :: after) 2 = .ok after := sliceFrom_append ['?', '>'] after
  have hsize : Text.byteLength (('?' :: '>' :: after).take (2 + lineBreakLength after)) =
      2 + lineBreakLength after := by
    rw [List.take_add, Text.byteLength_append]
    exact congrArg (2 + ·) (byteLength_take_lineBreakLength after)
  rw [closeTagByteCut, hslice, ok_bind, inBytes, hsize]
  rfl

/-- The tests are those of `cutCode`, in its order. -/
theorem codeByteCut_eq [Limits] (pos : Position) (nameExpected : Bool) (c : Char) (cs : List Char) :
    codeByteCut pos nameExpected c cs = inBytes (c :: cs) (cutCode pos nameExpected c cs) := by
  simp only [codeByteCut, cutCode]
  by_cases hclose : c = '?' ∧ cs.head? = some '>'
  · obtain ⟨rfl, hhead⟩ := hclose
    obtain ⟨after, rfl⟩ := List.head?_eq_some_iff.1 hhead
    exact closeTagByteCut_eq after
  rw [if_neg (mt isPrefixOf_close_iff.1 hclose), closeTagLength?_eq_none_iff.2 hclose]
  simp only []
  by_cases hblank : isBlank c = true
  · rw [if_pos hblank, if_pos hblank, inBytes, byteLength_take_runLength]
  rw [if_neg hblank, if_neg hblank]
  by_cases hhash : c = '#'
  · rw [if_pos hhash, if_pos hhash, OpensLineComment.lineCommentByteCut_eq (.hash hhash)]
  rw [if_neg hhash, if_neg hhash]
  by_cases hslashes : c = '/' ∧ cs.head? = some '/'
  · rw [if_pos hslashes, if_pos hslashes,
      OpensLineComment.lineCommentByteCut_eq (.slashes hslashes.1 hslashes.2)]
  rw [if_neg hslashes, if_neg hslashes]
  by_cases hblock : c = '/' ∧ cs.head? = some '*'
  · rw [if_pos hblock, if_pos hblock]
    obtain ⟨rfl, hhead⟩ := hblock
    obtain ⟨after, rfl⟩ := List.head?_eq_some_iff.1 hhead
    exact blockCommentByteCut_eq pos after
  rw [if_neg hblock, if_neg hblock]
  by_cases hvariable : c = '$' ∧ cs.head?.any isNameStart = true
  · rw [if_pos hvariable, if_pos hvariable, hvariable.1, variableByteCut_eq]
  rw [if_neg hvariable, if_neg hvariable]
  by_cases hname : isNameStart c = true
  · rw [if_pos hname, if_pos hname, wordByteCut_eq]
  rw [if_neg hname, if_neg hname]
  by_cases hseparator : c = '\\'
  · rw [if_pos hseparator, if_pos hseparator, hseparator]
    rfl
  rw [if_neg hseparator, if_neg hseparator]
  by_cases hnumber : c.isDigit = true ∨ (c = '.' ∧ cs.head?.any Char.isDigit = true)
  · rw [if_pos hnumber, if_pos hnumber, numberBytes_eq, ok_bind, inBytes,
      byteLength_take_number (opensNumber_cons_iff.2 hnumber)]
    rfl
  rw [if_neg hnumber, if_neg hnumber]
  by_cases hquote : c = '\'' ∨ c = '"'
  · have hescape : c ≠ '\\' := hseparator
    rw [if_pos hquote, if_pos hquote, quotedBytes?_eq hescape, inBytes_cutString]
  rw [if_neg hquote, if_neg hquote, heredocHeaderBytes?_eq_ok_map, ok_bind]
  cases hheader : heredocHeader? (c :: cs) with
  | some header => exact heredocByteCut_eq pos (c :: cs) header.2 header.1
  | none => exact markByteCut_eq pos c cs

end PhpTokens.Lexer
