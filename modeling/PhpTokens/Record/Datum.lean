/-!
# Plain data

A datum is a value without a type of its own: what a record looks like once it
has been read from text or before it is written. Numbers with a fraction, dates
and times are all one kind of datum here, since no record takes them.
-/

namespace PhpTokens

/-- A value of plain data. -/
inductive Datum where
  | null
  | bool (b : Bool)
  | int (n : Int)
  | scalar
  | text (s : String)
  | list (items : List Datum)
  | record (fields : List (String × Datum))
deriving Inhabited

namespace Datum

/-- The value of a field of a record. -/
def field? (fields : List (String × Datum)) (name : String) : Option Datum :=
  (fields.find? fun f => f.1 = name).map Prod.snd

/-- A number that counts something. -/
def nat (n : Nat) : Datum := .int n

end Datum

end PhpTokens
