import ReactiveScript.Number.Rounding
import ReactiveScript.Text.Blank

/-!
# Reading numbers

A text is read as a number after its outer blanks are dropped. The empty text is zero; `Infinity`
may carry a sign; `0x` starts a hexadecimal integer of 64 bits, which may carry a sign after the
mark; everything else is a decimal literal or NaN.
-/

namespace ReactiveScript

namespace Number

/-- The value of a decimal digit. -/
def digit? (c : Char) : Option Nat :=
  if '0' ≤ c ∧ c ≤ '9' then some (c.toNat - '0'.toNat) else none

/-- The value of a hexadecimal digit of either case. -/
def hexDigit? (c : Char) : Option Nat :=
  if '0' ≤ c ∧ c ≤ '9' then some (c.toNat - '0'.toNat)
  else if 'a' ≤ c ∧ c ≤ 'f' then some (c.toNat - 'a'.toNat + 10)
  else if 'A' ≤ c ∧ c ≤ 'F' then some (c.toNat - 'A'.toNat + 10)
  else none

/-- Whether a character is a decimal digit. -/
def isDigit (c : Char) : Bool := (digit? c).isSome

/-- Joins neighbouring digits of a base to digits of its square. The least digit comes first. -/
def joinPairs (base : Nat) : List Nat → List Nat
  | low :: high :: rest => (low + base * high) :: joinPairs base rest
  | short => short

/-- The natural that digits of a base denote, the least digit first. Each of the `rounds` halves the
number of digits, so that a long text takes few products of long naturals. -/
def ofDigits (base : Nat) : (rounds : Nat) → List Nat → Nat
  | 0, digits => digits.foldr (fun d value => d + base * value) 0
  | rounds + 1, digits => ofDigits (base * base) rounds (joinPairs base digits)

/-- The natural that a list of decimal digits denotes. -/
def digitsValue (cs : List Char) : Nat :=
  ofDigits 10 (cs.length.log2 + 1) (cs.reverse.map fun c => (digit? c).getD 0)

theorem foldr_joinPairs (base : Nat) (digits : List Nat) :
    (joinPairs base digits).foldr (fun d value => d + base * base * value) 0 =
      digits.foldr (fun d value => d + base * value) 0 := by
  fun_induction joinPairs base digits with
  | case1 low high rest ih =>
    simp only [List.foldr_cons, ih]
    rw [Nat.mul_add, Nat.mul_assoc, Nat.add_assoc]
  | case2 short h =>
    match short with
    | [] => rfl
    | [d] => simp
    | low :: high :: rest => exact absurd rfl (h low high rest)

/-- The number of rounds does not matter. -/
theorem ofDigits_eq_foldr (base rounds : Nat) (digits : List Nat) :
    ofDigits base rounds digits = digits.foldr (fun d value => d + base * value) 0 := by
  induction rounds generalizing base digits with
  | zero => rfl
  | succ rounds ih => rw [ofDigits, ih, foldr_joinPairs]

/-- Digits are read from left to right: each one multiplies what stands before it by ten. -/
theorem digitsValue_eq_foldl (cs : List Char) :
    digitsValue cs = cs.foldl (fun value c => value * 10 + (digit? c).getD 0) 0 := by
  simp only [digitsValue, ofDigits_eq_foldr, List.map_reverse, List.foldr_reverse, List.foldl_map,
    Nat.add_comm, Nat.mul_comm]

/-- An optional sign: whether it is a minus, and the rest. -/
def splitSign : List Char → Bool × List Char
  | '-' :: cs => (true, cs)
  | '+' :: cs => (false, cs)
  | cs => (false, cs)

/-- The integer that a nonempty list of hexadecimal digits denotes. -/
def hexDigits? (cs : List Char) : Option Nat :=
  if cs.isEmpty then none
  else cs.foldl (fun value? c => do return (← value?) * 16 + (← hexDigit? c)) (some 0)

/-- A hexadecimal integer with an optional sign, if it fits into 64 signed bits. -/
def hexInteger? (cs : List Char) : Option Int :=
  let (negative, digits) := splitSign cs
  match hexDigits? digits with
  | some magnitude =>
    if negative then (if magnitude ≤ signBit then some (-(magnitude : Int)) else none)
    else (if magnitude < signBit then some (magnitude : Int) else none)
  | none => none

/-- The magnitude from which an exponent is not counted further: `2 ^ 16`. -/
def exponentLimit : Nat := 65536

/-- The magnitude that the digits of an exponent denote. Digits after it has reached the limit do
not change it. -/
def exponentValue (cs : List Char) : Nat :=
  cs.foldl (fun value c => if value < exponentLimit then value * 10 + (digit? c).getD 0 else value) 0

/-- The exponent part of a decimal literal: nothing, or `e` or `E`, an optional sign and digits. -/
def exponentPart? : List Char → Option Int
  | [] => some 0
  | c :: cs =>
    if c = 'e' ∨ c = 'E' then
      let (negative, digits) := splitSign cs
      if digits.isEmpty || !digits.all isDigit then none
      else some (if negative then -(exponentValue digits : Int) else exponentValue digits)
    else none

/-- The fraction part of a decimal literal, if a point starts it, and the rest. -/
def splitFraction : List Char → List Char × List Char
  | '.' :: cs => (cs.takeWhile isDigit, cs.dropWhile isDigit)
  | cs => ([], cs)

/-- A decimal literal: an optional sign, digits with an optional point (at least one digit in all)
and an optional exponent. -/
def decimal? (cs : List Char) : Option Number :=
  let (negative, unsigned) := splitSign cs
  let whole := unsigned.takeWhile isDigit
  let (fraction, rest) := splitFraction (unsigned.dropWhile isDigit)
  if whole.isEmpty && fraction.isEmpty then none
  else
    match exponentPart? rest with
    | some exponent =>
      some (ofDecimal negative (digitsValue (whole ++ fraction)) (exponent - fraction.length))
    | none => none

/-- The number that a text without outer blanks denotes. -/
def parseTrimmed : List Char → Number
  | [] => zero false
  | '0' :: 'x' :: cs => (hexInteger? cs).elim nan ofInt
  | '0' :: 'X' :: cs => (hexInteger? cs).elim nan ofInt
  | cs =>
    if cs = "Infinity".toList ∨ cs = "+Infinity".toList then infinity false
    else if cs = "-Infinity".toList then infinity true
    else (decimal? cs).getD nan

/-- The number that a text denotes. -/
def parse (s : String) : Number := parseTrimmed (Text.trim s.toList)

end Number

end ReactiveScript
