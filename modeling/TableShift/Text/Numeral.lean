/-! # Unsigned numerals

Reading unsigned numbers of a given radix, with an upper limit: an optional
plus sign, then one digit or more, and nothing else.
-/

namespace TableShift

/-- The value of a digit in some radix up to 16, upper or lower case. -/
def digitValue? (radix : Nat) (c : Char) : Option Nat :=
  let value :=
    if c.isDigit then c.toNat - '0'.toNat
    else if 'a' ≤ c && c ≤ 'f' then c.toNat - 'a'.toNat + 10
    else if 'A' ≤ c && c ≤ 'F' then c.toNat - 'A'.toNat + 10
    else radix
  if value < radix then some value else none

/-- The number that digits spell after those of `acc`, unless one of them is no
    digit of the radix. -/
def digitsValue? (radix : Nat) (acc : Nat) : List Char → Option Nat
  | [] => some acc
  | c :: cs =>
    match digitValue? radix c with
    | some d => digitsValue? radix (acc * radix + d) cs
    | none => none

/-- The unsigned number below `bound` that the characters spell. -/
def unsigned? (radix bound : Nat) (cs : List Char) : Option Nat :=
  let digits :=
    match cs with
    | '+' :: rest => rest
    | _ => cs
  match digits with
  | [] => none
  | _ =>
    match digitsValue? radix 0 digits with
    | some n => if n < bound then some n else none
    | none => none

/-- The decimal number below 2³² that a text spells, used for column lengths. -/
def length? (s : String) : Option UInt32 :=
  (unsigned? 10 UInt32.size s.toList).map UInt32.ofNat

/-- A number in decimal, with zeros in front up to a given width. -/
def paddedDecimal (width n : Nat) : String :=
  let digits := Nat.toDigits 10 n
  String.ofList (List.replicate (width - digits.length) '0' ++ digits)

end TableShift
