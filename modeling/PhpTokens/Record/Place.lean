import PhpTokens.Record.Codec
import PhpTokens.Sequence.Basic

/-!
# Records of positions, spans and directions
-/

namespace PhpTokens

namespace Position

/-- The plain data of a position. -/
def encode (p : Position) : Datum :=
  .record [("offset", .nat p.offset), ("line", .nat p.line.toNat),
    ("column", .nat p.column.toNat)]

/-- The position of plain data. -/
def decode? : Datum → Option Position
  | .record fields => do
      let offset ← Codec.field? (Codec.natBelow? wordBound) fields "offset"
      let line ← Codec.field? Codec.word32? fields "line"
      let column ← Codec.field? Codec.word32? fields "column"
      return ⟨offset, line, column⟩
  | .list [o, l, c] => do
      let offset ← Codec.natBelow? wordBound o
      let line ← Codec.word32? l
      let column ← Codec.word32? c
      return ⟨offset, line, column⟩
  | _ => none

instance : Codec Position := ⟨encode, decode?⟩

end Position

namespace Span

/-- The plain data of a span. -/
def encode (s : Span) : Datum := .record [("start", s.start.encode), ("end", s.stop.encode)]

/-- The span of plain data. -/
def decode? : Datum → Option Span
  | .record fields => do
      let start ← Codec.field? Position.decode? fields "start"
      let stop ← Codec.field? Position.decode? fields "end"
      return ⟨start, stop⟩
  | .list [a, b] => do
      let start ← Position.decode? a
      let stop ← Position.decode? b
      return ⟨start, stop⟩
  | _ => none

instance : Codec Span := ⟨encode, decode?⟩

end Span

instance : Codec Direction where
  encode d := .text d.label
  decode? := Codec.constant? Direction.ofLabel?

instance : Codec Log.Level where
  encode l := .text l.label
  decode? := Codec.constant? Log.Level.ofLabel?

end PhpTokens
