import ReactiveScript.Number.Rounding

/-!
# Shortest decimals

The text of a number uses the fewest decimal digits that read back as that number, and among those
the digits nearest to its value. The search walks decimal grids from coarse to fine and tests the
two neighbours of the value on each grid by reading them back.
-/

namespace ReactiveScript

/-- The decimal `digits * 10 ^ exponent`. -/
structure Decimal where
  /-- The significant digits. -/
  digits : Nat
  /-- The power of ten of the last digit. -/
  exponent : Int
  deriving DecidableEq, Repr

namespace Decimal

/-- The nonnegative number nearest to a decimal. -/
def toNumber (d : Decimal) : Number := Number.ofDecimal false d.digits d.exponent

/-- Which of two equally near decimals is taken. -/
inductive Tie where
  /-- The larger one. -/
  | up
  /-- The one whose last digit is even. -/
  | even
  deriving DecidableEq, Repr

/-- Whether the natural above a value is preferred to the one at or below it. -/
def prefersUpper (tie : Tie) (r : Ratio) : Bool :=
  match r.compareToHalf with
  | .lt => false
  | .gt => true
  | .eq => tie == .up || r.floor % 2 == 1

/-- The neighbour of a value on the grid of spacing `10 ^ exponent` that reads back as `n`, if any.
If both neighbours do, the nearer one is taken. -/
def onGrid? (tie : Tie) (n : Number) (r : Ratio) (exponent : Int) : Option Decimal :=
  let units := r.scale 10 (-exponent)
  let lower : Decimal := ⟨units.floor, exponent⟩
  let upper : Decimal := ⟨units.floor + 1, exponent⟩
  let lowerReads := lower.toNumber.toBits == n.toBits
  let upperReads := upper.toNumber.toBits == n.toBits
  if upperReads && (prefersUpper tie units || !lowerReads) then some upper
  else if lowerReads then some lower
  else none

/-- The first hit among `count` grids, from spacing `10 ^ exponent` downward. -/
def search? (tie : Tie) (n : Number) (r : Ratio) :
    (count : Nat) → (exponent : Int) → Option Decimal
  | 0, _ => none
  | count + 1, exponent =>
    match onGrid? tie n r exponent with
    | some d => some d
    | none => search? tie n r count (exponent - 1)

/-- An upper bound for the exponent of the leading decimal digit of a value, plus one:
`30103 / 100000` is a little more than the logarithm of two. -/
def coarsest (r : Ratio) : Int := (r.log2 + 1) * 30103 / 100000 + 2

/-- All digits of `coefficient * 2 ^ exponent`. A negative power of two is a power of five over a
power of ten. -/
def exact (coefficient : Nat) (exponent : Int) : Decimal :=
  if 0 ≤ exponent then ⟨coefficient * Nat.pow 2 exponent.toNat, 0⟩
  else ⟨coefficient * Nat.pow 5 (-exponent).toNat, exponent⟩

/-- The number of grids searched. Seventeen digits always suffice, and the coarsest grid is at most
three places above the leading digit. -/
def gridCount : Nat := 24

/-- The shortest decimal that reads back as the magnitude `coefficient * 2 ^ exponent`. -/
def shortest (tie : Tie) (coefficient : Nat) (exponent : Int) : Decimal :=
  let r := Ratio.ofPower coefficient 2 exponent
  (search? tie (Number.ofRatio false r) r gridCount (coarsest r)).getD (exact coefficient exponent)

end Decimal

end ReactiveScript
