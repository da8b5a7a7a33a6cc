import ReactiveScript.Decimal.Shortest

/-!
# Writing decimals

A `Layout` fixes how the digits of a decimal are set: between two bounds on the exponent of the
leading digit they are positional, outside of them they carry an exponent with its sign.
-/

namespace ReactiveScript

namespace Decimal

/-- How a decimal is written. -/
structure Layout where
  /-- The least exponent of the leading digit that is written positionally. -/
  least : Int
  /-- The greatest exponent of the leading digit that is written positionally. -/
  greatest : Int
  /-- Whether a positional integer ends in a point and a zero. -/
  pointed : Bool
  /-- Which of two equally near shortest decimals is written. -/
  tie : Tie

/-- The decimal digits of a natural, most significant first. -/
def digitsOf (n : Nat) : List Char := Nat.toDigits 10 n

/-- Digits with a point before the last `places` of them. -/
def withPoint (digits : List Char) (places : Nat) : List Char :=
  if digits.length ≤ places then
    '0' :: '.' :: (List.replicate (places - digits.length) '0' ++ digits)
  else
    digits.take (digits.length - places) ++ '.' :: digits.drop (digits.length - places)

/-- The positional form. -/
def positional (pointed : Bool) (d : Decimal) : List Char :=
  let digits := digitsOf d.digits
  if 0 ≤ d.exponent then
    digits ++ List.replicate d.exponent.toNat '0' ++ (if pointed then ['.', '0'] else [])
  else
    withPoint digits (-d.exponent).toNat

/-- The form with an exponent: one digit, the others after a point, and the signed exponent of the
first digit. -/
def scientific (d : Decimal) : List Char :=
  let digits := digitsOf d.digits
  let exponent := d.exponent + (digits.length - 1 : Nat)
  let fraction := digits.drop 1
  digits.take 1 ++ (if fraction.isEmpty then [] else '.' :: fraction) ++
    'e' :: (if exponent < 0 then '-' else '+') :: digitsOf exponent.natAbs

/-- A decimal in a layout. -/
def write (layout : Layout) (d : Decimal) : List Char :=
  let leading := d.exponent + ((digitsOf d.digits).length - 1 : Nat)
  if layout.least ≤ leading ∧ leading ≤ layout.greatest then positional layout.pointed d
  else scientific d

/-- The magnitude `coefficient * 2 ^ exponent` in a layout, with the fewest digits that read back. -/
def writeShortest (layout : Layout) (coefficient : Nat) (exponent : Int) : List Char :=
  write layout (shortest layout.tie coefficient exponent)

end Decimal

end ReactiveScript
