import ReactiveScript.Json.Basic

/-!
# Reading JSON

A reader that reports where a text stops being JSON. Positions count lines from one and the bytes
consumed on a line; an error is placed either where reading stopped or one byte further, at the
byte that was looked at.
-/

namespace ReactiveScript

namespace Json

/-- What can be wrong with a text. -/
inductive Fault where
  | eofValue | eofList | eofObject | eofString
  | expectedColon | expectedListEnd | expectedObjectEnd
  | expectedIdent | expectedValue
  | invalidEscape | invalidNumber | numberOutOfRange
  | loneSurrogate | truncatedSurrogate
  | controlCharacter | keyNotString
  | trailingComma | trailingCharacters | tooDeep
  deriving DecidableEq, Repr

/-- The wording of a fault. -/
def Fault.message : Fault → String
  | eofValue => "EOF while parsing a value"
  | eofList => "EOF while parsing a list"
  | eofObject => "EOF while parsing an object"
  | eofString => "EOF while parsing a string"
  | expectedColon => "expected `:`"
  | expectedListEnd => "expected `,` or `]`"
  | expectedObjectEnd => "expected `,` or `\x7d`"
  | expectedIdent => "expected ident"
  | expectedValue => "expected value"
  | invalidEscape => "invalid escape"
  | invalidNumber => "invalid number"
  | numberOutOfRange => "number out of range"
  | loneSurrogate => "lone leading surrogate in hex escape"
  | truncatedSurrogate => "unexpected end of hex escape"
  | controlCharacter => "control character (\\u0000-\\u001F) found while parsing a string"
  | keyNotString => "key must be a string"
  | trailingComma => "trailing comma"
  | trailingCharacters => "trailing characters"
  | tooDeep => "recursion limit exceeded"

/-- A fault at a position. -/
structure ReadError where
  /-- What is wrong. -/
  fault : Fault
  /-- The line, counted from one. -/
  line : Nat
  /-- The number of bytes before the position on its line. -/
  column : Nat
  deriving DecidableEq, Repr

/-- The text of an error. -/
def ReadError.message (e : ReadError) : String :=
  e.fault.message ++ " at line " ++ e.line.repr ++ " column " ++ e.column.repr

/-- A place in a text: what is still to be read, and the position reached. -/
structure Cursor where
  /-- What is still to be read. -/
  rest : List Char
  /-- The line reached. -/
  line : Nat
  /-- The bytes consumed on that line. -/
  column : Nat

namespace Cursor

/-- The start of a text. -/
def start (s : String) : Cursor := ⟨s.toList, 1, 0⟩

/-- The place after `c`, which is followed by `rest`. -/
def after (cur : Cursor) (c : Char) (rest : List Char) : Cursor :=
  if c = '\n' then ⟨rest, cur.line + 1, 0⟩ else ⟨rest, cur.line, cur.column + c.utf8Size⟩

/-- An error where reading stopped. -/
def failHere {α : Type} (cur : Cursor) (fault : Fault) : Except ReadError α :=
  .error ⟨fault, cur.line, cur.column⟩

/-- An error one byte further, if there is one. -/
def failPast {α : Type} (cur : Cursor) (fault : Fault) : Except ReadError α :=
  match cur.rest with
  | [] => .error ⟨fault, cur.line, cur.column⟩
  | c :: _ =>
    if c = '\n' then .error ⟨fault, cur.line + 1, 0⟩
    else .error ⟨fault, cur.line, cur.column + 1⟩

/-- The place after some bytes of the text, which may end inside a character. Only the position
matters there. -/
def skipBytes : (bytes : Nat) → List Char → Cursor → Cursor
  | 0, _, cur => cur
  | _, [], cur => cur
  | bytes + 1, c :: rest, cur =>
    if c.utf8Size ≤ bytes + 1 then skipBytes (bytes + 1 - c.utf8Size) rest (cur.after c rest)
    else ⟨[], cur.line, cur.column + (bytes + 1)⟩
termination_by _ cs => cs.length

/-- Whether a character may stand between tokens. -/
def isSpace (c : Char) : Bool := c == ' ' || c == '\n' || c == '\t' || c == '\r'

/-- The place after a number of characters that stand in front. -/
def advance : List Char → Cursor → Cursor
  | [], cur => cur
  | c :: cs, cur => advance cs (cur.after c (cur.rest.drop 1))

/-- The place after leading blanks. -/
def skipSpace (cur : Cursor) : Cursor := advance (cur.rest.takeWhile isSpace) cur

end Cursor

/-! ## Numbers -/

/-- The largest significand that is kept: that of 64 bits. -/
def maxSignificand : Nat := 18446744073709551615

/-- The largest exponent: that of 31 bits. -/
def maxExponent : Nat := 2147483647

/-- Appends digits of the integer part to a significand while it fits, and counts the digits from
the first that does not. -/
def integerDigits (digits : List Char) : Nat × Nat :=
  digits.foldl (fun (significand, dropped) c =>
    let d := (Number.digit? c).getD 0
    if dropped = 0 ∧ significand * 10 + d ≤ maxSignificand then (significand * 10 + d, 0)
    else (significand, dropped + 1)) (0, 0)

/-- Appends digits of the fraction to a significand while it fits: the significand, how many digits
were appended, and whether one did not fit. -/
def fractionDigits (significand : Nat) (digits : List Char) : Nat × Nat × Bool :=
  digits.foldl (fun (significand, kept, full) c =>
    let d := (Number.digit? c).getD 0
    if !full && decide (significand * 10 + d ≤ maxSignificand) then
      (significand * 10 + d, kept + 1, false)
    else (significand, kept, true)) (significand, 0, false)

/-- A power of ten, correctly rounded. -/
def powerOfTen (exponent : Nat) : Number := Number.ofDecimal false 1 exponent

/-- `n * 10 ^ exponent` by repeated rounding, each factor at most `10 ^ 308`; nothing if the result
is too large. -/
def scale (n : Number) (exponent : Int) : Option Number :=
  if exponent.natAbs ≤ 308 then
    if 0 ≤ exponent then
      let scaled := n * powerOfTen exponent.natAbs
      if scaled.isInf then none else some scaled
    else some (n / powerOfTen exponent.natAbs)
  else if n.isZero then some n
  else if 0 ≤ exponent then none
  else scale (n / powerOfTen 308) (exponent + 308)
termination_by exponent.natAbs

/-- An exponent within 32 signed bits. -/
def clampExponent (exponent : Int) : Int := max (-(maxExponent : Int) - 1) (min (maxExponent : Int) exponent)

/-- A number with a sign. -/
def withSign (negative : Bool) (n : Number) : Number := if negative then -n else n

/-- The digits of an exponent. Digits beyond 31 bits either put a number out of range or leave it
zero. -/
def readExponentDigits (negative negativeExponent : Bool) (significand : Nat) (exponent : Int) :
    (seen : Nat) → List Char → Cursor → Except ReadError (Number × Cursor)
  | seen, c :: rest, cur =>
    match Number.digit? c with
    | some d =>
      let cur := cur.after c rest
      if seen * 10 + d ≤ maxExponent then
        readExponentDigits negative negativeExponent significand exponent (seen * 10 + d) rest cur
      else if significand ≠ 0 ∧ !negativeExponent then cur.failHere .numberOutOfRange
      else
        .ok (withSign negative (Number.zero false), Cursor.advance (rest.takeWhile Number.isDigit) cur)
    | none => finish seen cur
  | seen, [], cur => finish seen cur
where
  /-- The number once its exponent is known. -/
  finish (seen : Nat) (cur : Cursor) : Except ReadError (Number × Cursor) :=
    let total := clampExponent (if negativeExponent then exponent - seen else exponent + seen)
    match scale (Number.ofNat significand) total with
    | some n => .ok (withSign negative n, cur)
    | none => cur.failHere .numberOutOfRange

/-- The exponent of a number, after its mark. -/
def readExponent (negative : Bool) (significand : Nat) (exponent : Int) (cur : Cursor) :
    Except ReadError (Number × Cursor) :=
  let (negativeExponent, cur) :=
    match cur.rest with
    | '+' :: rest => (false, cur.after '+' rest)
    | '-' :: rest => (true, cur.after '-' rest)
    | _ => (false, cur)
  match cur.rest with
  | [] => cur.failHere .eofValue
  | c :: rest =>
    match Number.digit? c with
    | some d =>
      readExponentDigits negative negativeExponent significand exponent d rest (cur.after c rest)
    | none => cur.failPast .invalidNumber

/-- What may follow the digits of a number: an exponent, or nothing. -/
def readScaled (negative : Bool) (significand : Nat) (exponent : Int) (cur : Cursor) :
    Except ReadError (Number × Cursor) :=
  match cur.rest with
  | 'e' :: rest => readExponent negative significand exponent (cur.after 'e' rest)
  | 'E' :: rest => readExponent negative significand exponent (cur.after 'E' rest)
  | _ =>
    match scale (Number.ofNat significand) exponent with
    | some n => .ok (withSign negative n, cur)
    | none => cur.failHere .numberOutOfRange

/-- The fraction of a number, after its point. -/
def readFraction (negative : Bool) (significand : Nat) (exponent : Int) (cur : Cursor) :
    Except ReadError (Number × Cursor) :=
  let digits := cur.rest.takeWhile Number.isDigit
  let (significand, kept, full) := fractionDigits significand digits
  let cur := Cursor.advance digits cur
  if kept = 0 ∧ !full then
    match cur.rest with
    | [] => cur.failPast .eofValue
    | _ => cur.failPast .invalidNumber
  else readScaled negative significand (exponent - kept) cur

/-- What may follow the integer part of a number. -/
def readAfterInteger (negative : Bool) (significand dropped : Nat) (cur : Cursor) :
    Except ReadError (Number × Cursor) :=
  match cur.rest with
  | '.' :: rest => readFraction negative significand dropped (cur.after '.' rest)
  | c :: _ =>
    if c = 'e' ∨ c = 'E' ∨ dropped ≠ 0 then readScaled negative significand dropped cur
    else .ok (withSign negative (Number.ofNat significand), cur)
  | [] =>
    if dropped ≠ 0 then readScaled negative significand dropped cur
    else .ok (withSign negative (Number.ofNat significand), cur)

/-- A number after its sign. -/
def readNumber (negative : Bool) (cur : Cursor) : Except ReadError (Number × Cursor) :=
  match cur.rest with
  | [] => cur.failHere .eofValue
  | c :: rest =>
    if !Number.isDigit c then cur.failPast .invalidNumber
    else if c = '0' then
      let cur := cur.after c rest
      match rest with
      | d :: _ =>
        if Number.isDigit d then cur.failPast .invalidNumber else readAfterInteger negative 0 0 cur
      | [] => readAfterInteger negative 0 0 cur
    else
      let digits := cur.rest.takeWhile Number.isDigit
      let (significand, dropped) := integerDigits digits
      readAfterInteger negative significand dropped (Cursor.advance digits cur)

/-! ## Strings -/

/-- Four hexadecimal digits. -/
def readHex4 (cur : Cursor) : Except ReadError (Nat × Cursor) :=
  match cur.rest with
  | a :: b :: c :: d :: rest =>
    match Number.hexDigit? a, Number.hexDigit? b, Number.hexDigit? c, Number.hexDigit? d with
    | some a, some b, some c, some d =>
      .ok (((a * 16 + b) * 16 + c) * 16 + d, ⟨rest, cur.line, cur.column + 4⟩)
    | _, _, _, _ => (Cursor.skipBytes 4 cur.rest cur).failHere .invalidEscape
  | short =>
    if 4 ≤ (String.ofList short).utf8ByteSize then
      (Cursor.skipBytes 4 short cur).failHere .invalidEscape
    else (Cursor.advance short cur).failHere .eofString

/-- A character that must stand in front. -/
def expectChar (expected : Char) (cur : Cursor) : Except ReadError Cursor :=
  match cur.rest with
  | [] => cur.failHere .eofString
  | c :: rest => if c = expected then .ok (cur.after c rest) else cur.failPast .truncatedSurrogate

/-- A character given by its code, after the mark `u`. Codes beyond 16 bits come as two surrogates. -/
def readUnicode (cur : Cursor) : Except ReadError (Char × Cursor) :=
  match readHex4 cur with
  | .error e => .error e
  | .ok (high, cur) =>
    if 0xDC00 ≤ high ∧ high ≤ 0xDFFF then cur.failHere .loneSurrogate
    else if 0xD800 ≤ high ∧ high ≤ 0xDBFF then
      match expectChar '\\' cur with
      | .error e => .error e
      | .ok cur =>
        match expectChar 'u' cur with
        | .error e => .error e
        | .ok cur =>
          match readHex4 cur with
          | .error e => .error e
          | .ok (low, cur) =>
            if 0xDC00 ≤ low ∧ low ≤ 0xDFFF then
              .ok (Char.ofNat ((high - 0xD800) * 0x400 + (low - 0xDC00) + 0x10000), cur)
            else cur.failHere .loneSurrogate
    else .ok (Char.ofNat high, cur)

/-- An escaped character, after its backslash. -/
def readEscape (cur : Cursor) : Except ReadError (Char × Cursor) :=
  match cur.rest with
  | [] => cur.failHere .eofString
  | '"' :: rest => .ok ('"', cur.after '"' rest)
  | '\\' :: rest => .ok ('\\', cur.after '\\' rest)
  | '/' :: rest => .ok ('/', cur.after '/' rest)
  | 'b' :: rest => .ok ('\x08', cur.after 'b' rest)
  | 'f' :: rest => .ok ('\x0c', cur.after 'f' rest)
  | 'n' :: rest => .ok ('\n', cur.after 'n' rest)
  | 'r' :: rest => .ok ('\r', cur.after 'r' rest)
  | 't' :: rest => .ok ('\t', cur.after 't' rest)
  | 'u' :: rest => readUnicode (cur.after 'u' rest)
  | _ => cur.failPast .invalidEscape

/-- The characters of a string up to its closing quote, after those already read, which are given
in reverse. -/
def readString : (fuel : Nat) → List Char → Cursor → Except ReadError (String × Cursor)
  | 0, _, cur => cur.failHere .eofString
  | fuel + 1, seen, cur =>
    match cur.rest with
    | [] => cur.failHere .eofString
    | c :: rest =>
      if c = '"' then .ok (String.ofList seen.reverse, cur.after c rest)
      else if c = '\\' then
        match readEscape (cur.after c rest) with
        | .error e => .error e
        | .ok (c, cur) => readString fuel (c :: seen) cur
      else if c.toNat < 0x20 then cur.failPast .controlCharacter
      else readString fuel (c :: seen) (cur.after c rest)

/-! ## Values -/

/-- The remaining letters of a word. -/
def readWord : List Char → Cursor → Except ReadError Cursor
  | [], cur => .ok cur
  | letter :: letters, cur =>
    match cur.rest with
    | [] => cur.failHere .eofValue
    | c :: rest =>
      if c = letter then readWord letters (cur.after c rest) else cur.failPast .expectedIdent

/-- A key and the colon after it. -/
def readKey (fuel : Nat) (cur : Cursor) : Except ReadError (String × Cursor) :=
  match cur.rest with
  | '"' :: rest =>
    match readString fuel [] (cur.after '"' rest) with
    | .error e => .error e
    | .ok (key, cur) =>
      let cur := cur.skipSpace
      match cur.rest with
      | [] => cur.failPast .eofObject
      | ':' :: rest => .ok (key, cur.after ':' rest)
      | _ => cur.failPast .expectedColon
  | _ => cur.failPast .keyNotString

mutual

/-- A tree, which may hold fewer than `levels` nested containers. -/
def readValue : (fuel : Nat) → (levels : Nat) → Cursor → Except ReadError (Json × Cursor)
  | 0, _, cur => cur.failPast .eofValue
  | fuel + 1, levels, cur =>
    let cur := cur.skipSpace
    match cur.rest with
    | [] => cur.failPast .eofValue
    | 'n' :: rest =>
      match readWord ['u', 'l', 'l'] (cur.after 'n' rest) with
      | .error e => .error e
      | .ok cur => .ok (.null, cur)
    | 't' :: rest =>
      match readWord ['r', 'u', 'e'] (cur.after 't' rest) with
      | .error e => .error e
      | .ok cur => .ok (.bool true, cur)
    | 'f' :: rest =>
      match readWord ['a', 'l', 's', 'e'] (cur.after 'f' rest) with
      | .error e => .error e
      | .ok cur => .ok (.bool false, cur)
    | '"' :: rest =>
      match readString fuel [] (cur.after '"' rest) with
      | .error e => .error e
      | .ok (s, cur) => .ok (.string s, cur)
    | '[' :: rest =>
      if levels ≤ 1 then cur.failPast .tooDeep
      else readItems fuel (levels - 1) [] (cur.after '[' rest)
    | '\x7b' :: rest =>
      if levels ≤ 1 then cur.failPast .tooDeep
      else readEntries fuel (levels - 1) [] (cur.after '\x7b' rest)
    | '-' :: rest =>
      match readNumber true (cur.after '-' rest) with
      | .error e => .error e
      | .ok (n, cur) => .ok (.number n, cur)
    | c :: _ =>
      if Number.isDigit c then
        match readNumber false cur with
        | .error e => .error e
        | .ok (n, cur) => .ok (.number n, cur)
      else cur.failPast .expectedValue

/-- The items of an array up to its closing bracket, after those already read, which are given in
reverse. -/
def readItems : (fuel : Nat) → (levels : Nat) → List Json → Cursor →
    Except ReadError (Json × Cursor)
  | 0, _, _, cur => cur.failPast .eofList
  | fuel + 1, levels, seen, cur =>
    let cur := cur.skipSpace
    match cur.rest with
    | [] => cur.failPast .eofList
    | ']' :: rest => .ok (.array seen.reverse, cur.after ']' rest)
    | c :: rest =>
      if seen.isEmpty then
        match readValue fuel levels cur with
        | .error e => .error e
        | .ok (j, cur) => readItems fuel levels (j :: seen) cur
      else if c = ',' then
        let cur := (cur.after ',' rest).skipSpace
        match cur.rest with
        | [] => cur.failPast .eofValue
        | ']' :: _ => cur.failPast .trailingComma
        | _ =>
          match readValue fuel levels cur with
          | .error e => .error e
          | .ok (j, cur) => readItems fuel levels (j :: seen) cur
      else cur.failPast .expectedListEnd

/-- The entries of an object up to its closing brace, added to those already read. -/
def readEntries : (fuel : Nat) → (levels : Nat) → OrderedMap Json → Cursor →
    Except ReadError (Json × Cursor)
  | 0, _, _, cur => cur.failPast .eofObject
  | fuel + 1, levels, seen, cur =>
    let cur := cur.skipSpace
    match cur.rest with
    | [] => cur.failPast .eofObject
    | '\x7d' :: rest => .ok (.object seen, cur.after '\x7d' rest)
    | c :: rest =>
      if seen.isEmpty then readEntry fuel levels seen cur
      else if c = ',' then
        let cur := (cur.after ',' rest).skipSpace
        match cur.rest with
        | [] => cur.failPast .eofValue
        | '\x7d' :: _ => cur.failPast .trailingComma
        | _ => readEntry fuel levels seen cur
      else cur.failPast .expectedObjectEnd

/-- One entry and those after it. -/
def readEntry : (fuel : Nat) → (levels : Nat) → OrderedMap Json → Cursor →
    Except ReadError (Json × Cursor)
  | 0, _, _, cur => cur.failPast .eofObject
  | fuel + 1, levels, seen, cur =>
    match readKey fuel cur with
    | .error e => .error e
    | .ok (key, cur) =>
      match readValue fuel levels cur with
      | .error e => .error e
      | .ok (j, cur) => readEntries fuel levels (OrderedMap.put seen key j) cur

end

/-- One more than the number of containers that may be nested. -/
def levelLimit : Nat := 128

/-- The tree of a whole text. Three steps per character are more than the reader ever takes. -/
def read (s : String) : Except ReadError Json :=
  let cur := Cursor.start s
  match readValue (3 * cur.rest.length + 3) levelLimit cur with
  | .error e => .error e
  | .ok (j, cur) =>
    let cur := cur.skipSpace
    match cur.rest with
    | [] => .ok j
    | _ => cur.failPast .trailingCharacters

end Json

end ReactiveScript
