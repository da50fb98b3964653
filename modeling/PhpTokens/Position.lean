import PhpTokens.Text.Bytes

/-!
# Places in a source text

A position counts three things of the text before it: bytes, lines and the
characters of the last line. Only a line feed ends a line. Lines and columns are
numbers of 32 bits, which start again at zero behind the largest; `advance?` is
the same arithmetic where that is not let pass. A span is the text between two
positions; it is measured and cut by their byte offsets alone.
-/

namespace PhpTokens

/-- A place in a source text: bytes before it, and its line and column, both
counted from one. -/
structure Position where
  offset : Nat
  line : UInt32
  column : UInt32
deriving DecidableEq, Repr, Inhabited

namespace Position

/-- The beginning of a text. -/
def start : Position := ⟨0, 1, 1⟩

/-- The place of no text at all, before any line. -/
def zero : Position := ⟨0, 0, 0⟩

/-- The place after one more character. -/
def advance (p : Position) (c : Char) : Position :=
  if c = '\n' then ⟨p.offset + 1, p.line + 1, 1⟩
  else ⟨p.offset + c.utf8Size, p.line, p.column + 1⟩

/-- The place after a run of characters. -/
def advanceBy (p : Position) (cs : List Char) : Position :=
  cs.foldl advance p

@[simp] theorem advanceBy_nil (p : Position) : p.advanceBy [] = p := rfl

@[simp] theorem advanceBy_cons (p : Position) (c : Char) (cs : List Char) :
    p.advanceBy (c :: cs) = (p.advance c).advanceBy cs := rfl

@[simp] theorem advanceBy_append (p : Position) (xs ys : List Char) :
    p.advanceBy (xs ++ ys) = (p.advanceBy xs).advanceBy ys :=
  List.foldl_append

theorem offset_advanceBy (p : Position) (cs : List Char) :
    (p.advanceBy cs).offset = p.offset + Text.byteLength cs := by
  induction cs generalizing p with
  | nil => rfl
  | cons c cs ih =>
      rw [advanceBy_cons, ih, Text.byteLength_cons, ← Nat.add_assoc]
      refine congrArg (· + Text.byteLength cs) ?_
      unfold advance
      split
      · next hc => rw [hc]; rfl
      · rfl

/-- The place after one more character, if its line and column are numbers of
32 bits still. -/
def advance? (p : Position) (c : Char) : Option Position :=
  let counter := if c = '\n' then p.line else p.column
  if counter.toNat + 1 < UInt32.size then some (p.advance c) else none

/-- The place after a run of characters, with each step checked. -/
def advanceBy? (p : Position) (cs : List Char) : Option Position :=
  cs.foldlM advance? p

@[simp] theorem advanceBy?_nil (p : Position) : p.advanceBy? [] = some p := rfl

@[simp] theorem advanceBy?_cons (p : Position) (c : Char) (cs : List Char) :
    p.advanceBy? (c :: cs) = (p.advance? c).bind (·.advanceBy? cs) := List.foldlM_cons

/-- Positions are ordered by offset, then line, then column. -/
def cmp (p q : Position) : Ordering :=
  (compare p.offset q.offset).then
    ((compare p.line.toNat q.line.toNat).then (compare p.column.toNat q.column.toNat))

/-- A position as people write it, `line:column`. -/
def toText (p : Position) : String :=
  toString p.line.toNat ++ ":" ++ toString p.column.toNat

end Position

/-- The text from one position up to another. -/
structure Span where
  start : Position
  stop : Position
deriving DecidableEq, Repr, Inhabited

namespace Span

/-- The span of no text at a position. -/
def point (p : Position) : Span := ⟨p, p⟩

/-- Number of bytes between the two ends. -/
def byteLength (s : Span) : Nat := s.stop.offset - s.start.offset

/-- Whether the two ends are the same place. -/
def isEmpty (s : Span) : Bool := s.start.offset == s.stop.offset

/-- A span as people write it: the line is given once if both ends share it. -/
def toText (s : Span) : String :=
  if s.start.line = s.stop.line then s.start.toText ++ "-" ++ toString s.stop.column.toNat
  else s.start.toText ++ "-" ++ s.stop.toText

/-- The text that a span covers in a source, if both ends are places of it. -/
def slice? (s : Span) (source : String) : Option String :=
  (Text.sliceBytes? s.start.offset s.stop.offset source.toList).map String.ofList

end Span

end PhpTokens
