import TableShift.Text.Numeral

/-! # Decimal numbers

Digits with a power of ten, held against the range of the floating-point numbers of
64 bits. Powers too large or too small to matter are told by the number of digits.
-/

namespace TableShift

/-- Digits, in units of a power of ten. -/
structure Decimal where
  digits : List Char
  scale : Int
  deriving Repr, DecidableEq, BEq

namespace Decimal

/-- The least number that is rounded to infinity: half-way between the largest
    floating-point number and the power of two above it. -/
def floatBound : Nat := Nat.pow 2 1024 - Nat.pow 2 970

def floatBoundDigits : Nat := 309

/-- Whether a number is rounded to infinity. -/
def isInfinite (d : Decimal) : Bool :=
  let digits := d.digits.dropWhile (· == '0')
  let wholeDigits : Int := digits.length + d.scale
  if digits.isEmpty then false
  else if wholeDigits < floatBoundDigits then false
  else if floatBoundDigits < wholeDigits then true
  else
    match digitsValue? 10 0 digits with
    | some n => floatBound * Nat.pow 10 (-d.scale).toNat ≤ n * Nat.pow 10 d.scale.toNat
    | none => false

end Decimal

end TableShift
