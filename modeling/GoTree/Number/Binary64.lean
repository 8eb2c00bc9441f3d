/-!
# Binary floating point

A `Binary64` is a number in the 64-bit format: a sign, 11 bits of exponent and 52 bits of fraction.
The number nearest to a ratio is found in whole-number arithmetic, with ties going to the even
neighbour, and the value of a finite number is given as a ratio again.
-/

namespace GoTree

/-- The whole number nearest to `num / den`; of two equally near ones the even one. -/
def roundHalfEven (num den : Nat) : Nat :=
  let q := num / den
  let twice := 2 * (num % den)
  if twice < den then q
  else if den < twice then q + 1
  else if q % 2 = 0 then q else q + 1

/-- A number in the 64-bit binary format. -/
structure Binary64 where
  bits : UInt64
  deriving DecidableEq

namespace Binary64

/-- The number of values of the fraction. -/
def fractionSize : Nat := 0x10000000000000

/-- The bit that holds the sign. -/
def signBit : UInt64 := 0x8000000000000000

/-- The magnitude bits of infinity. -/
def infinityBits : Nat := 0x7ff0000000000000

/-- The magnitude bits of the number that stands for "not a number". -/
def nanBits : Nat := 0x7ff8000000000000

/-- The number with a sign and magnitude bits. -/
def ofMagnitude (negative : Bool) (magnitude : Nat) : Binary64 :=
  ⟨if negative then magnitude.toUInt64 ||| signBit else magnitude.toUInt64⟩

/-- Whether the sign bit is set. -/
def isNegative (x : Binary64) : Bool :=
  x.bits &&& signBit != 0

/-- The bits other than the sign. -/
def magnitude (x : Binary64) : Nat :=
  x.bits.toNat % signBit.toNat

/-- The largest `e` with `2 ^ e ≤ num / den`, for positive `num` and `den`. -/
def floorLog2 (num den : Nat) : Int :=
  let e : Int := (Nat.log2 num : Int) - Nat.log2 den
  let fits := if 0 ≤ e then den <<< e.toNat ≤ num else den ≤ num <<< (-e).toNat
  if fits then e else e - 1

/-- The magnitude bits of the number nearest to `num / den`. The unit in the last place is
`2 ^ e`, where `e` is 52 below the exponent of the ratio and never less than -1074; the bits of the
exponent and of the fraction follow each other, so a fraction that is rounded up to the next power
of two carries into the exponent. -/
def nearestMagnitude (num den : Nat) : Nat :=
  if num = 0 then 0
  else
    let e := max (-1074) (floorLog2 num den - 52)
    let units :=
      if 0 ≤ e then roundHalfEven num (den <<< e.toNat)
      else roundHalfEven (num <<< (-e).toNat) den
    min infinityBits ((e + 1074).toNat * fractionSize + units)

/-- The number nearest to the ratio `num / den`, or to its negative. -/
def ofRatio (negative : Bool) (num den : Nat) : Binary64 :=
  ofMagnitude negative (nearestMagnitude num den)

/-- The number nearest to `mantissa * 10 ^ exponent`, or to its negative. -/
def ofDecimal (negative : Bool) (mantissa : Nat) (exponent : Int) : Binary64 :=
  if 0 ≤ exponent then ofRatio negative (mantissa * Nat.pow 10 exponent.toNat) 1
  else ofRatio negative mantissa (Nat.pow 10 (-exponent).toNat)

/-- The absolute value as a ratio, for a finite number. -/
def ratio? (x : Binary64) : Option (Nat × Nat) :=
  let m := x.magnitude
  if infinityBits ≤ m then none
  else
    let fraction := m % fractionSize
    let exponent := m / fractionSize
    if exponent = 0 then some (fraction, 1 <<< 1074)
    else some ((fractionSize + fraction) <<< (exponent - 1), 1 <<< 1074)

end Binary64

end GoTree
