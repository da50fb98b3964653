/-!
# Searching a partitioned array

An array whose elements satisfy a condition up to some point, and not from
there on, has a partition point: the number of elements before it. It is found
by halving the interval that must contain it.
-/

namespace PhpTokens.Search

/-- The partition point between `lo` and `hi`, given that it lies there. -/
def partitionBetween (xs : Array Nat) (p : Nat → Bool) (lo hi : Nat) : Nat :=
  if _h : lo < hi then
    let mid := lo + (hi - lo) / 2
    match xs[mid]? with
    | some x => if p x then partitionBetween xs p (mid + 1) hi else partitionBetween xs p lo mid
    | none => partitionBetween xs p lo mid
  else lo
termination_by hi - lo

/-- Number of leading elements that satisfy `p`, for an array in which no
element that satisfies `p` follows one that does not. -/
def partitionPoint (xs : Array Nat) (p : Nat → Bool) : Nat :=
  partitionBetween xs p 0 xs.size

end PhpTokens.Search
