/-!
# Ratios

Exact nonnegative values as quotients of naturals. Scaling by a power never rounds, and division
happens once, where a value is rounded or cut to a natural.
-/

namespace ReactiveScript

/-- The value `num / den`, for `den ≠ 0`. It need not be in lowest terms. -/
structure Ratio where
  /-- The numerator. -/
  num : Nat
  /-- The denominator. -/
  den : Nat
  deriving DecidableEq, Repr

namespace Ratio

/-- A natural as a ratio. -/
def ofNat (n : Nat) : Ratio := ⟨n, 1⟩

/-- The ratio times `base ^ exponent`. -/
def scale (r : Ratio) (base : Nat) (exponent : Int) : Ratio :=
  if 0 ≤ exponent then ⟨r.num * Nat.pow base exponent.toNat, r.den⟩
  else ⟨r.num, r.den * Nat.pow base (-exponent).toNat⟩

/-- The value `coefficient * base ^ exponent`. -/
def ofPower (coefficient base : Nat) (exponent : Int) : Ratio :=
  (ofNat coefficient).scale base exponent

/-- The greatest natural that is not above. -/
def floor (r : Ratio) : Nat := r.num / r.den

/-- Whether the value is a natural. -/
def isWhole (r : Ratio) : Bool := r.num % r.den == 0

/-- The distance from the floor, in halves: below, at, or above one half. -/
def compareToHalf (r : Ratio) : Ordering := compare (2 * (r.num % r.den)) r.den

/-- The nearest natural; a tie goes to the even one. -/
def nearestEven (r : Ratio) : Nat :=
  match r.compareToHalf with
  | .lt => r.floor
  | .gt => r.floor + 1
  | .eq => r.floor + r.floor % 2

/-- The difference of the binary logarithms of numerator and denominator, which differs from the
logarithm of the value by less than one. -/
def log2 (r : Ratio) : Int := (r.num.log2 : Int) - (r.den.log2 : Int)

end Ratio

end ReactiveScript
