import GoTree.Number.Digits

/-!
# Reading whole numbers

A 64-bit number is written in decimal digits, with a plus sign before them at will. Nothing else
may stand in the text, and the value has to fit.
-/

namespace GoTree.Word64

/-- The number of values of a 64-bit word. -/
abbrev size : Nat := 0x10000000000000000

/-- The characters after a plus sign, if there is one. -/
def dropPlus : List Char → List Char
  | '+' :: rest => rest
  | cs => cs

/-- Reads a 64-bit number. -/
def parse? (s : String) : Option Nat :=
  let digits := dropPlus s.toList
  if digits ≠ [] ∧ digits.all Digits.isDigit then
    let n := Digits.value digits
    if n < size then some n else none
  else none

end GoTree.Word64
