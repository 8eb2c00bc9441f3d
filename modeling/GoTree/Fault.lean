/-!
# Faults

A **fault** is a broken access: an index that is not allocated, a range that does not lie in its
buffer, a position too large for its word, a name that was never interned. Each operation states
which of its conditions it tests first, so a fault names the first condition that failed. The
wording of every fault is `Fault.message`.

`Fault.tooDeep` is of another kind: a bounded recursion was given too small a bound. It never
arises from a bound at least as large as the nesting of the tree at hand.
-/

namespace GoTree

/-- The ways in which an access can fail. -/
inductive Fault where
  /-- An index at or past the length of what it indexes. -/
  | indexOutOfBounds (length index : Nat)
  /-- A sum of two 32-bit words that needs more than 32 bits. -/
  | addOverflow
  /-- A difference that would be below zero. -/
  | subOverflow
  /-- A range that starts past the end of a buffer of this length. -/
  | rangeStart (start length : Nat)
  /-- A range that ends past the end of a buffer of this length. -/
  | rangeEnd (stop length : Nat)
  /-- A symbol that stands for no string. -/
  | invalidSymbol
  /-- A start position that needs more than 32 bits. -/
  | startTooLarge
  /-- An end position that needs more than 32 bits. -/
  | endTooLarge
  /-- A number of items that needs more than 32 bits. -/
  | lengthTooLarge
  /-- A recursion bound that is smaller than the nesting it was meant for. -/
  | tooDeep
  deriving DecidableEq

/-- The text that reports a fault. -/
def Fault.message : Fault → String
  | .indexOutOfBounds length index =>
      s!"index out of bounds: the len is {length} but the index is {index}"
  | .addOverflow => "attempt to add with overflow"
  | .subOverflow => "attempt to subtract with overflow"
  | .rangeStart start length =>
      s!"range start index {start} out of range for slice of length {length}"
  | .rangeEnd stop length =>
      s!"range end index {stop} out of range for slice of length {length}"
  | .invalidSymbol => "invalid symbol"
  | .startTooLarge => "assertion failed: start <= u32::MAX as usize"
  | .endTooLarge => "assertion failed: end <= u32::MAX as usize"
  | .lengthTooLarge => "assertion failed: len <= u32::MAX as usize"
  | .tooDeep => "nesting exceeds the recursion bound"

end GoTree
