import ReactiveScript.Number.Rounding

/-!
# Words of numbers

Bitwise operators read a number as a word of 32 bits: its integer part modulo `2 ^ 32`. The word is
found by operations on numbers: the fraction is dropped, the rest is reduced modulo `2 ^ 32` by a
remainder that is not negative, and this remainder is cut to a word.
-/

namespace ReactiveScript

namespace Number

/-- A number without its fraction. The sign stays, that of a zero too. -/
def trunc (n : Number) : Number :=
  match n.shape with
  | .finite negative coefficient exponent =>
    ofRatio negative (.ofNat (Ratio.ofPower coefficient 2 exponent).floor)
  | _ => n

/-- The remainder of a division that is not negative: the magnitude of the divisor is added to a
negative remainder. -/
def euclideanRemainder (a b : Number) : Number :=
  let rest := a.remainder b
  if rest < 0 then rest + b.abs else rest

/-- The number of words, `2 ^ 32`. -/
def wordModulus : Number := 4294967296

/-- The 32-bit word of a number, zero for NaN and the infinities. The last step saturates. -/
def word (n : Number) : BitVec 32 :=
  if n.isFinite then (n.trunc.euclideanRemainder wordModulus).toUInt32.toBitVec else 0

end Number

end ReactiveScript
