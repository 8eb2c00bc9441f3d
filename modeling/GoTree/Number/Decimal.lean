import GoTree.Number.Binary64
import GoTree.Number.Digits

/-!
# Reading decimal numbers

A decimal number is an optional sign, digits with an optional point among them, and an optional
exponent; at least one digit stands outside the exponent. The words `inf`, `infinity` and `nan`, in
either case, are read as well. The result is the nearest number in the binary format.
-/

namespace GoTree.Decimal

/-- The value of the digits of an exponent. Digits are read until the value has reached 65536, and
the rest of them are dropped. -/
def exponentValue (digits : List Char) : Nat :=
  digits.foldl (fun n c => if n < 65536 then 10 * n + (Digits.digit? c).getD 0 else n) 0

/-- An optional minus or plus sign: whether it is a minus, and the rest. -/
def sign : List Char → Bool × List Char
  | '-' :: rest => (true, rest)
  | '+' :: rest => (false, rest)
  | cs => (false, cs)

/-- An exponent, which has to be the whole of the text. -/
def exponent? : List Char → Option Int
  | [] => some 0
  | c :: rest =>
    if c = 'e' ∨ c = 'E' then
      let (negative, rest) := sign rest
      let (digits, rest) := Digits.split rest
      if digits = [] ∨ rest ≠ [] then none
      else some (if negative then -(exponentValue digits : Int) else exponentValue digits)
    else none

/-- The digits after a point, if there is one, and the rest. -/
def fraction : List Char → List Char × List Char
  | '.' :: rest => Digits.split rest
  | cs => ([], cs)

/-- A number without sign, as a mantissa and a power of ten. -/
def unsigned? (cs : List Char) : Option (Nat × Int) :=
  let (whole, rest) := Digits.split cs
  let (part, rest) := fraction rest
  if whole = [] ∧ part = [] then none
  else do
    let exponent ← exponent? rest
    return (Digits.value (whole ++ part), exponent - part.length)

/-- The magnitude bits of a word for a number. -/
def word? (cs : List Char) : Option Nat :=
  match String.ofList (cs.map Char.toLower) with
  | "inf" => some Binary64.infinityBits
  | "infinity" => some Binary64.infinityBits
  | "nan" => some Binary64.nanBits
  | _ => none

/-- Reads a decimal number. -/
def parse? (s : String) : Option Binary64 :=
  let (negative, rest) := sign s.toList
  match unsigned? rest with
  | some (mantissa, exponent) => some (.ofDecimal negative mantissa exponent)
  | none => (word? rest).map (.ofMagnitude negative)

end GoTree.Decimal
