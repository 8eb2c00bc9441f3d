/-!
# Sets of characters

A `CodeSet` is a set of code points, given in increasing order by the points at which membership
changes: the first point is the first member, the second the first non-member after it, and so on.
A code point is a member when the number of change points up to it is odd.
-/

namespace GoTree

/-- A set of code points, by the points at which membership changes. -/
structure CodeSet where
  changes : Array Nat

namespace CodeSet

/-- The number of entries of a sorted array that are at most `x`, if all entries before `lo` are
and none from `hi` on is. -/
def countUpTo (a : Array Nat) (x lo hi : Nat) : Nat :=
  if lo < hi then
    let mid := (lo + hi) / 2
    if a.getD mid 0 ≤ x then countUpTo a x (mid + 1) hi else countUpTo a x lo mid
  else lo
termination_by hi - lo

/-- Whether a character is in a set. -/
def contains (s : CodeSet) (c : Char) : Bool :=
  countUpTo s.changes c.toNat 0 s.changes.size % 2 == 1

end CodeSet

end GoTree
