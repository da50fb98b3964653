import PhpTokens.Record.Datum

/-!
# Records of typed values

A type with a record form can be written as plain data and read back. Writing
has one form. Reading takes more: a structure may be a list of its fields in
order, fields that are not known are passed over, and a constant may be given
as the only field of a record whose value is null.
-/

namespace PhpTokens

/-- Types whose values can be written as plain data and read back. -/
class Codec (α : Type) where
  encode : α → Datum
  decode? : Datum → Option α

namespace Codec

/-- A constant, by its name or as the name of a null field. -/
def constant? {α : Type} (ofLabel? : String → Option α) : Datum → Option α
  | .text s => ofLabel? s
  | .record [(s, .null)] => ofLabel? s
  | _ => none

/-- A number below a bound. -/
def natBelow? (bound : Nat) : Datum → Option Nat
  | .int n => if 0 ≤ n ∧ n < bound then some n.toNat else none
  | _ => none

/-- A number of 32 bits. -/
def word32? (d : Datum) : Option UInt32 := (natBelow? UInt32.size d).map UInt32.ofNat

/-- A text. -/
def text? : Datum → Option String
  | .text s => some s
  | _ => none

/-- A field that a record must have. -/
def field? {α : Type} (read : Datum → Option α) (fields : List (String × Datum)) (name : String) :
    Option α :=
  (Datum.field? fields name).bind read

end Codec

/-- Bound of a byte offset or an index. -/
def wordBound : Nat := UInt64.size

end PhpTokens
