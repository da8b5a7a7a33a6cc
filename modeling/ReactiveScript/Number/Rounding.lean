import ReactiveScript.Number.Basic

/-!
# Rounding exact values to numbers

`Number.ofRatio` gives the number nearest to an exact value, ties going to the even coefficient.
Integers, decimal literals and remainders are all rounded through it.
-/

namespace ReactiveScript

namespace Number

/-- The exponent at which a value has a coefficient of 53 bits, or the least exponent if that is
larger. The logarithm determines it up to one. -/
def exponentOf (r : Ratio) : Int :=
  let guess := max (r.log2 - 53) leastExponent
  if (r.scale 2 (-guess)).floor < 2 * leadingBit then guess else guess + 1

/-- The number nearest to a value with a sign; ties go to the even coefficient. The exponent and the
coefficient are added, not joined, so a coefficient that rounds up to `2 ^ 53` carries into the
exponent. -/
def ofRatio (negative : Bool) (r : Ratio) : Number :=
  if r.num = 0 then zero negative
  else
    let exponent := exponentOf r
    let coefficient := (r.scale 2 (-exponent)).nearestEven
    let bits := (exponent - leastExponent).toNat * leadingBit + coefficient
    ofMagnitudeBits negative (min bits infinityBits)

/-- The number nearest to a natural. -/
def ofNat (n : Nat) : Number := ofRatio false (.ofNat n)

/-- The number nearest to an integer. -/
def ofInt (i : Int) : Number := ofRatio (i < 0) (.ofNat i.natAbs)

/-- The number nearest to `± digits * 10 ^ exponent`. Exponents far outside the range of numbers
are decided without forming the power of ten. -/
def ofDecimal (negative : Bool) (digits : Nat) (exponent : Int) : Number :=
  if digits = 0 then zero negative
  else if 400 < exponent then infinity negative
  else if exponent + digits.log2 < -400 then zero negative
  else ofRatio negative (.ofPower digits 10 exponent)

/-- The remainder of a division that truncates: it has the sign of the dividend and is exact. NaN
for a zero divisor or an infinite dividend. -/
def remainder (a b : Number) : Number :=
  match a.shape, b.shape with
  | .finite negative c e, .finite _ d f =>
    if d = 0 then nan
    else
      let exponent := min e f
      let rest := (c * Nat.pow 2 (e - exponent).toNat) % (d * Nat.pow 2 (f - exponent).toNat)
      ofRatio negative (.ofPower rest 2 exponent)
  | .finite .., .infinite _ => a
  | _, _ => nan

/-- Exponentiation. A NaN exponent gives NaN whatever the base, and so does an infinite exponent
on a base of magnitude one. -/
def power (base exponent : Number) : Number :=
  if exponent.isNaN || (base.abs == 1 && exponent.isInf) then nan else Float.pow base exponent

end Number

end ReactiveScript
