import ReactiveScript.Number.Ratio

/-!
# Numbers

Script numbers are IEEE doubles. Everything a program can observe about a number beyond the four
basic operations is stated on its *shape*: the sign, coefficient and exponent of the exact value
`± coefficient * 2 ^ exponent`. Going through the shape keeps equality, truncation, remainders and
rounding in exact integer arithmetic.
-/

namespace ReactiveScript

/-- A script number. All NaNs are one number, so `=` tells two numbers apart exactly when their
bit patterns differ, NaN payloads aside. -/
abbrev Number := Float

namespace Number

/-- The exact value of a number. -/
inductive Shape where
  /-- Not a number. -/
  | nan
  /-- An infinity with its sign. -/
  | infinite (negative : Bool)
  /-- The value `± coefficient * 2 ^ exponent`; a zero keeps its sign. -/
  | finite (negative : Bool) (coefficient : Nat) (exponent : Int)
  deriving DecidableEq, Repr

/-- The exponent of the smallest positive number. -/
def leastExponent : Int := -1074

/-- The leading bit of a coefficient, which bit patterns leave out. Exponents are counted in units
of it. -/
def leadingBit : Nat := Nat.pow 2 52

/-- The sign bit of a bit pattern. -/
def signBit : Nat := Nat.pow 2 63

/-- Bit pattern of positive infinity, which is also the least pattern that is not a finite
positive number. -/
def infinityBits : Nat := 2047 * leadingBit

/-- The shape of a number, read off its sign bit, eleven exponent bits and fraction. -/
def shape (n : Number) : Shape :=
  let bits := n.toBits.toNat
  let negative := decide (signBit ≤ bits)
  let field : Nat := bits / leadingBit % 2048
  let fraction := bits % leadingBit
  if field = 2047 then
    if fraction = 0 then .infinite negative else .nan
  else if field = 0 then
    .finite negative fraction leastExponent
  else
    .finite negative (leadingBit + fraction) ((field : Int) - 1 + leastExponent)

/-- The number whose magnitude has the given bit pattern, with a sign. -/
def ofMagnitudeBits (negative : Bool) (bits : Nat) : Number :=
  Float.ofBits (UInt64.ofNat (if negative then signBit + bits else bits))

/-- The one NaN. -/
def nan : Number := Float.ofBits 0x7ff8000000000000

/-- The infinity of the given sign. -/
def infinity (negative : Bool) : Number := ofMagnitudeBits negative infinityBits

/-- The zero of the given sign. -/
def zero (negative : Bool) : Number := ofMagnitudeBits negative 0

/-- Zero of either sign. -/
def isZero (n : Number) : Bool :=
  match n.shape with
  | .finite _ coefficient _ => coefficient == 0
  | _ => false

/-- Numeric equality: NaN equals nothing, the two zeros are equal, and otherwise equal numbers have
one bit pattern. -/
def equals (a b : Number) : Bool :=
  !a.isNaN && (a.toBits == b.toBits || (a.isZero && b.isZero))

/-! ## Exact integers -/

/-- The integer part of a finite number, dropping the fraction toward zero. -/
def truncate? (n : Number) : Option Int :=
  match n.shape with
  | .finite negative coefficient exponent =>
    let magnitude := (Ratio.ofPower coefficient 2 exponent).floor
    some (if negative then -(magnitude : Int) else (magnitude : Int))
  | _ => none

/-- The value of a number that is an integer. -/
def toInt? (n : Number) : Option Int :=
  match n.shape with
  | .finite _ coefficient exponent =>
    if (Ratio.ofPower coefficient 2 exponent).isWhole then n.truncate? else none
  | _ => none

end Number

end ReactiveScript
