import ReactiveScript.Decimal.Layout

/-!
# The text of a number

Integers below `10 ^ 21` are written with all their digits; other finite numbers with the shortest
digits that read back, with an exponent from `10 ^ 21` on and below `10 ^ -6`.
-/

namespace ReactiveScript

namespace Number

/-- Numbers as scripts see them. -/
def layout : Decimal.Layout where
  least := -6
  greatest := 20
  pointed := false
  tie := .up

/-- The least magnitude of an integer that is not written with all its digits. -/
def digitLimit : Nat := Nat.pow 10 21

/-- A sign, then the magnitude. -/
def signed (negative : Bool) (magnitude : List Char) : List Char :=
  if negative then '-' :: magnitude else magnitude

/-- The characters of a number. Both zeros are written `0`. -/
def chars (n : Number) : List Char :=
  match n.shape with
  | .nan => "NaN".toList
  | .infinite negative => signed negative "Infinity".toList
  | .finite negative coefficient exponent =>
    match n.toInt? with
    | some i =>
      if i.natAbs < digitLimit then signed (i < 0) (Decimal.digitsOf i.natAbs)
      else signed negative (Decimal.writeShortest layout coefficient exponent)
    | none => signed negative (Decimal.writeShortest layout coefficient exponent)

/-- The text of a number. -/
def format (n : Number) : String := String.ofList n.chars

end Number

end ReactiveScript
