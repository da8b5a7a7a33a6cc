import ReactiveScript.Json.Basic
import ReactiveScript.Number.Format

/-!
# Writing JSON

One writer serves both layouts. A layout says what stands between the parts of a container at a
given depth: nothing in the compact form, a line break and two blanks per level in the indented
form.
-/

namespace ReactiveScript

namespace Json

/-- The spacing of a written tree. -/
structure Spacing where
  /-- What stands before an item at a depth, and before the bracket that closes that depth. -/
  gap : Nat → List Char
  /-- What separates a key from its value. -/
  colon : List Char

/-- Everything on one line without blanks. -/
def Spacing.compact : Spacing where
  gap := fun _ => []
  colon := [':']

/-- One item per line, indented by two blanks per level. -/
def Spacing.indented : Spacing where
  gap := fun depth => '\n' :: List.replicate (2 * depth) ' '
  colon := [':', ' ']

/-- Numbers that are not small integers: positional from `10 ^ -5` to below `10 ^ 16`, and always
with a point or an exponent. -/
def numberLayout : Decimal.Layout where
  least := -5
  greatest := 15
  pointed := true
  tie := .even

/-- The least magnitude of an integer that is written like other numbers: `2 ^ 53`. -/
def integerLimit : Nat := 9007199254740992

/-- The text of a number. Integers below `2 ^ 53` have neither point nor exponent. -/
def writeNumber (n : Number) : List Char :=
  match n.shape with
  | .finite negative coefficient exponent =>
    match n.toInt? with
    | some i =>
      if i.natAbs < integerLimit then Number.signed (i < 0) (Decimal.digitsOf i.natAbs)
      else Number.signed negative (Decimal.writeShortest numberLayout coefficient exponent)
    | none => Number.signed negative (Decimal.writeShortest numberLayout coefficient exponent)
  | _ => "null".toList

/-- A hexadecimal digit in lower case. -/
def hexDigit (n : Nat) : Char := Nat.digitChar (n % 16)

/-- A character inside quotes. Quotes, backslashes and control characters are escaped. -/
def escape (c : Char) : List Char :=
  if c = '"' then ['\\', '"']
  else if c = '\\' then ['\\', '\\']
  else if c = '\x08' then ['\\', 'b']
  else if c = '\x0c' then ['\\', 'f']
  else if c = '\n' then ['\\', 'n']
  else if c = '\r' then ['\\', 'r']
  else if c = '\t' then ['\\', 't']
  else if c.toNat < 0x20 then
    ['\\', 'u', '0', '0', hexDigit (c.toNat / 16), hexDigit c.toNat]
  else [c]

/-- A quoted string. -/
def quote (s : String) : List Char := '"' :: s.toList.flatMap escape ++ ['"']

mutual

/-- The characters of a tree whose brackets stand at a depth. -/
def chars (sp : Spacing) (depth : Nat) : Json → List Char
  | .null => "null".toList
  | .bool true => "true".toList
  | .bool false => "false".toList
  | .number n => writeNumber n
  | .string s => quote s
  | .array [] => ['[', ']']
  | .array (j :: rest) =>
    '[' :: sp.gap (depth + 1) ++ chars sp (depth + 1) j ++ itemChars sp (depth + 1) rest ++
      sp.gap depth ++ [']']
  | .object [] => ['\x7b', '\x7d']
  | .object ((k, j) :: rest) =>
    '\x7b' :: sp.gap (depth + 1) ++ quote k ++ sp.colon ++ chars sp (depth + 1) j ++
      entryChars sp (depth + 1) rest ++ sp.gap depth ++ ['\x7d']

/-- The items of an array after the first, each behind a comma. -/
def itemChars (sp : Spacing) (depth : Nat) : List Json → List Char
  | [] => []
  | j :: rest => ',' :: sp.gap depth ++ chars sp depth j ++ itemChars sp depth rest

/-- The entries of an object after the first, each behind a comma. -/
def entryChars (sp : Spacing) (depth : Nat) : List (String × Json) → List Char
  | [] => []
  | (k, j) :: rest =>
    ',' :: sp.gap depth ++ quote k ++ sp.colon ++ chars sp depth j ++ entryChars sp depth rest

end

/-- The text of a tree. -/
def write (sp : Spacing) (j : Json) : String := String.ofList (chars sp 0 j)

end Json

end ReactiveScript
