/-!
# Values of a TOML document

A table remembers how it came to be, since that decides who may add to it: a
header defines a table once, a header of a table below it implies it, dotted
keys make one as they go, and an inline table is complete as it stands. All real
numbers are one value here, and so are all dates and times.
-/

namespace PhpTokens.Toml

/-- How a table came to be. -/
inductive TableKind where
  | defined | implied | dotted | inlined | inlineDotted
deriving DecidableEq, Repr

/-- A value of a TOML document. -/
inductive Value where
  | bool (b : Bool)
  | int (n : Int)
  | real
  | moment
  | text (s : String)
  | array (items : List Value)
  | table (kind : TableKind) (entries : List (String × Value))
  | tables (items : List (List (String × Value)))
deriving Inhabited

/-- The entries of a table, in the order in which they were added. -/
abbrev Entries := List (String × Value)

/-- Whether a table of kind `made` on the way to a key may be one of kind
`existing` that is there already. -/
def TableKind.passable (made existing : TableKind) : Bool :=
  match made, existing with
  | .implied, .defined | .implied, .implied | .implied, .dotted => true
  | .dotted, .implied | .dotted, .dotted => true
  | .inlineDotted, .inlineDotted => true
  | _, _ => false

namespace Entries

/-- The entries with another value for a key that they have. -/
def replace (key : String) (v : Value) (entries : Entries) : Entries :=
  entries.map fun e => if e.1 = key then (key, v) else e

/-- The entries without a key. -/
def erase (key : String) (entries : Entries) : Entries :=
  entries.filter fun e => e.1 ≠ key

/-- The entries after a change of the table that a path of keys leads to. Tables
that are missing on the way are made, with kind `made`; of an array of tables
the last one is entered. -/
def updateAt (made : TableKind) (change : TableKind → Entries → Option Entries) :
    TableKind → List String → Entries → Option Entries
  | kind, [], entries => change kind entries
  | _, key :: path, entries =>
      match entries.lookup key with
      | none => do
          let inner ← updateAt made change made path []
          return entries ++ [(key, .table made inner)]
      | some (.table kind inner) => do
          guard (made.passable kind)
          let inner ← updateAt made change kind path inner
          return entries.replace key (.table kind inner)
      | some (.tables items) => do
          let last ← items.getLast?
          let last ← updateAt made change .defined path last
          return entries.replace key (.tables (items.dropLast ++ [last]))
      | some _ => none

/-- The entries with one more, where dotted keys lead through tables made for
them. -/
def insertDotted (made start : TableKind) (entries : Entries) (path : List String) (key : String)
    (v : Value) : Option Entries :=
  updateAt made
    (fun kind inner =>
      if (path.isEmpty ∨ kind = made) ∧ (inner.lookup key).isNone then some (inner ++ [(key, v)])
      else none)
    start path entries

end Entries

/-- A key with the keys that lead to it, and its value. -/
structure Assignment where
  path : List String
  key : String
  value : Value

/-- The entries with those of some assignments added in order. -/
def addAll (made start : TableKind) (entries : Entries) (body : List Assignment) : Option Entries :=
  body.foldlM (fun es a => es.insertDotted made start a.path a.key a.value) entries

/-- The part of a document under a header. -/
inductive Section where
  | root (body : List Assignment)
  | table (path : List String) (key : String) (body : List Assignment)
  | tables (path : List String) (key : String) (body : List Assignment)

/-- The entries of a document with one more section. -/
def Section.add (entries : Entries) : Section → Option Entries
  | .root body => addAll .dotted .defined entries body
  | .table path key body =>
      entries.updateAt .implied (fun _ outer =>
        match outer.lookup key with
        | none => do
            let inner ← addAll .dotted .defined [] body
            return outer ++ [(key, .table .defined inner)]
        | some (.table .implied inner) => do
            let inner ← addAll .dotted .defined inner body
            return outer.erase key ++ [(key, .table .defined inner)]
        | some _ => none) .defined path
  | .tables path key body =>
      entries.updateAt .implied (fun _ outer =>
        match outer.lookup key with
        | none => do
            let inner ← addAll .dotted .defined [] body
            return outer ++ [(key, .tables [inner])]
        | some (.tables items) => do
            let inner ← addAll .dotted .defined [] body
            return outer.replace key (.tables (items ++ [inner]))
        | some _ => none) .defined path

end PhpTokens.Toml
