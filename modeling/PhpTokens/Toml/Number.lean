import PhpTokens.Toml.Text

/-!
# Numbers, dates and times of TOML

Digits may be grouped by single underscores. A whole number fits a signed word
of 64 bits. Dates and times are checked against the calendar and the clock; a
minute may have a leap second. A real number above the largest double is
refused, below the smallest it is not.
-/

namespace PhpTokens.Toml

/-- Digits grouped by single underscores, without the underscores, after those in
`front`, which are reversed. -/
def groupedFrom (isDigit : Char → Bool) (front : List Char) : List Char → List Char × List Char
  | [] => (front.reverse, [])
  | [c] => if isDigit c then ((c :: front).reverse, []) else (front.reverse, [c])
  | c :: d :: cs =>
      if isDigit c then groupedFrom isDigit (c :: front) (d :: cs)
      else if c = '_' ∧ isDigit d then groupedFrom isDigit (d :: front) cs
      else (front.reverse, c :: d :: cs)

/-- One or more digits, grouped by single underscores. -/
def grouped? (isDigit : Char → Bool) : Reader (List Char)
  | c :: cs => if isDigit c then some (groupedFrom isDigit [c] cs) else none
  | [] => none

/-- The number that digits spell to a base. -/
def digitsValue (base : Nat) (digits : List Char) : Nat :=
  digits.foldl (fun n c => base * n + (hexValue? c).getD 0) 0

/-- A sign, if there is one: whether it is a minus. -/
def sign : List Char → Bool × List Char
  | '+' :: cs => (false, cs)
  | '-' :: cs => (true, cs)
  | cs => (false, cs)

/-- The digits of a decimal number: only zero itself begins with zero. -/
def decimal? : Reader (List Char)
  | '0' :: cs => some (['0'], cs)
  | cs => grouped? Char.isDigit cs

/-- The whole numbers that a signed word of 64 bits holds. -/
def fits (n : Int) : Bool := Int64.minValue.toInt ≤ n && n ≤ Int64.maxValue.toInt

/-- A whole number to an announced base, after its announcement. -/
def based? (base : Nat) (isDigit : Char → Bool) : Reader Int := fun cs => do
  let (digits, rest) ← grouped? isDigit cs
  let n : Int := digitsValue base digits
  guard (fits n)
  return (n, rest)

/-- A whole number. -/
def integer? : Reader Int
  | '0' :: 'x' :: cs => based? 16 (fun c => (hexValue? c).isSome) cs
  | '0' :: 'o' :: cs => based? 8 (fun c => '0' ≤ c ∧ c ≤ '7') cs
  | '0' :: 'b' :: cs => based? 2 (fun c => c = '0' ∨ c = '1') cs
  | cs => do
      let (negative, cs) := sign cs
      let (digits, rest) ← decimal? cs
      let n : Int := digitsValue 10 digits
      let n := if negative then -n else n
      guard (fits n)
      return (n, rest)

/-- The digits after the point of a real number. -/
def fraction? : Reader (List Char)
  | '.' :: cs => grouped? Char.isDigit cs
  | _ => none

/-- The exponent of a real number. -/
def exponent? : Reader Int
  | 'e' :: cs | 'E' :: cs => do
      let (negative, cs) := sign cs
      let (digits, rest) ← grouped? Char.isDigit cs
      let n : Int := digitsValue 10 digits
      return (if negative then -n else n, rest)
  | _ => none

/-- Whether a decimal with given digits and exponent rounds to a number above
every double. The digits alone decide unless the number is close to the bound. -/
def overflows (digits : List Char) (exponent : Int) : Bool :=
  let m := digitsValue 10 digits
  if m = 0 then false
  else
    let magnitude := (Nat.toDigits 10 m).length + exponent
    if magnitude < 308 then false
    else if 310 < magnitude then true
    else
      let bound := Nat.pow 2 1024 - Nat.pow 2 970
      if 0 ≤ exponent then bound ≤ m * Nat.pow 10 exponent.toNat
      else bound * Nat.pow 10 (-exponent).toNat ≤ m

/-- The rest after a real number. -/
def real? (cs : List Char) : Option (List Char) :=
  let (negative, unsigned) := sign cs
  match unsigned with
  | 'i' :: 'n' :: 'f' :: rest => some rest
  | 'n' :: 'a' :: 'n' :: rest => some rest
  | _ => do
      let (whole, rest) ← decimal? unsigned
      let (part, exponent, rest) ←
        match fraction? rest with
        | some (part, rest) =>
            match exponent? rest with
            | some (e, rest) => some (part, e, rest)
            | none => some (part, 0, rest)
        | none => (exponent? rest).map fun (e, rest) => ([], e, rest)
      guard (negative ∨ !overflows (whole ++ part) (exponent - part.length))
      return rest

/-- A number of exactly `n` digits. -/
def fixed? (n : Nat) : Reader Nat := fun cs => do
  let digits := cs.take n
  guard (digits.length = n ∧ digits.all Char.isDigit)
  return (digitsValue 10 digits, cs.drop n)

/-- The rest after a given character. -/
def expect? (c : Char) : List Char → Option (List Char)
  | d :: cs => if d = c then some cs else none
  | [] => none

/-- Number of days of a month. -/
def daysIn (year month : Nat) : Nat :=
  if month = 2 then
    if year % 4 = 0 ∧ (year % 100 ≠ 0 ∨ year % 400 = 0) then 29 else 28
  else if month = 4 ∨ month = 6 ∨ month = 9 ∨ month = 11 then 30
  else 31

/-- The rest after a date. -/
def date? (cs : List Char) : Option (List Char) := do
  let (year, cs) ← fixed? 4 cs
  let cs ← expect? '-' cs
  let (month, cs) ← fixed? 2 cs
  let cs ← expect? '-' cs
  let (day, cs) ← fixed? 2 cs
  guard (1 ≤ month ∧ month ≤ 12 ∧ 1 ≤ day ∧ day ≤ daysIn year month)
  return cs

/-- The rest after the fraction of a second, if there is one. -/
def skipSecondFraction : List Char → List Char
  | '.' :: c :: cs => if c.isDigit then cs.dropWhile Char.isDigit else '.' :: c :: cs
  | cs => cs

/-- The rest after a time of day. -/
def time? (cs : List Char) : Option (List Char) := do
  let (hour, cs) ← fixed? 2 cs
  let cs ← expect? ':' cs
  let (minute, cs) ← fixed? 2 cs
  let cs ← expect? ':' cs
  let (second, cs) ← fixed? 2 cs
  guard (hour ≤ 23 ∧ minute ≤ 59 ∧ second ≤ 60)
  return skipSecondFraction cs

/-- The rest after the distance from universal time, if there is one. -/
def skipOffset (cs : List Char) : List Char :=
  match cs with
  | 'Z' :: rest | 'z' :: rest => rest
  | '+' :: rest | '-' :: rest =>
      (do
        let (hour, rest) ← fixed? 2 rest
        let rest ← expect? ':' rest
        let (minute, rest) ← fixed? 2 rest
        guard (hour ≤ 23 ∧ minute ≤ 59)
        return rest).getD cs
  | _ => cs

/-- The rest after the time that may follow a date. -/
def skipTime : List Char → List Char
  | 'T' :: cs => ((time? cs).map skipOffset).getD ('T' :: cs)
  | 't' :: cs => ((time? cs).map skipOffset).getD ('t' :: cs)
  | ' ' :: cs => ((time? cs).map skipOffset).getD (' ' :: cs)
  | cs => cs

/-- The rest after a date, a time, or both. -/
def dateTime? (cs : List Char) : Option (List Char) :=
  ((date? cs).map skipTime).orElse fun _ => time? cs

end PhpTokens.Toml
