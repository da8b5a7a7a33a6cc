import ReactiveScript.Number.Parse
import ReactiveScript.Proofs.IndexWords
import ReactiveScript.Proofs.Nearest

/-!
# Literals

The grammar of numerals, which are the texts that denote numbers, and the exact values of decimal
literals. The readers of digits, signs, fractions and exponents take exactly the pieces of a
literal, and what they accept is made of such pieces.
-/

namespace ReactiveScript

namespace Number

/-! ## The grammar -/

/-- A digit of a base up to sixteen. Letters are written in both cases. -/
structure Digit (base : Nat) where
  /-- What the digit stands for. -/
  value : Fin base
  /-- Whether a letter is written in upper case. -/
  upper : Bool

/-- The character of a digit. -/
def Digit.char {base : Nat} (d : Digit base) : Char :=
  if d.upper then (Nat.digitChar d.value).toUpper else Nat.digitChar d.value

/-- The natural that digits denote, the most significant first. -/
def valueOf {base : Nat} (digits : List (Digit base)) : Nat :=
  Nat.ofDigits base (digits.reverse.map fun d => (d.value : Nat))

/-- An optional sign. -/
inductive Sign where
  | none
  | plus
  | minus

namespace Sign

/-- The characters of a sign. -/
def chars : Sign → List Char
  | none => []
  | plus => ['+']
  | minus => ['-']

/-- Whether what follows is negated. -/
def negative : Sign → Bool
  | minus => true
  | _ => false

/-- A magnitude with its sign. -/
def apply (sign : Sign) (magnitude : Nat) : Int :=
  if sign.negative then -(magnitude : Int) else magnitude

end Sign

/-- The exponent of a decimal literal: a mark in either case, an optional sign and digits. -/
structure Exponent where
  upper : Bool
  sign : Sign
  digits : List (Digit 10)
  ne_nil : digits ≠ []

namespace Exponent

/-- The characters of an exponent. -/
def chars (x : Exponent) : List Char :=
  (if x.upper then 'E' else 'e') :: (x.sign.chars ++ x.digits.map Digit.char)

/-- The integer that an exponent denotes. -/
def value (x : Exponent) : Int := x.sign.apply (valueOf x.digits)

end Exponent

/-- A decimal literal: an optional sign, digits with an optional point, at least one digit in all,
and an optional exponent. -/
structure DecimalLiteral where
  sign : Sign
  whole : List (Digit 10)
  /-- The digits after the point, if there is a point. -/
  fraction : Option (List (Digit 10))
  exponent : Option Exponent
  ne_nil : whole ++ fraction.getD [] ≠ []

namespace DecimalLiteral

/-- The characters of the fraction and its point. -/
def fractionChars (l : DecimalLiteral) : List Char :=
  l.fraction.elim [] fun digits => '.' :: digits.map Digit.char

/-- The characters of the exponent. -/
def exponentChars (l : DecimalLiteral) : List Char := l.exponent.elim [] Exponent.chars

/-- The characters of a literal. -/
def chars (l : DecimalLiteral) : List Char :=
  l.sign.chars ++ (l.whole.map Digit.char ++ (l.fractionChars ++ l.exponentChars))

/-- All digits. -/
def digits (l : DecimalLiteral) : List (Digit 10) := l.whole ++ l.fraction.getD []

/-- The number of digits after the point. -/
def places (l : DecimalLiteral) : Nat := (l.fraction.getD []).length

/-- The written exponent. -/
def scale (l : DecimalLiteral) : Int := l.exponent.elim 0 Exponent.value

/-- The magnitude with some exponent in the place of the written one. -/
def valueAt (l : DecimalLiteral) (exponent : Int) : ℚ :=
  valueOf l.digits * 10 ^ (exponent - l.places)

/-- The magnitude of a literal. -/
def value (l : DecimalLiteral) : ℚ := l.valueAt l.scale

end DecimalLiteral

/-- The characters of a hexadecimal integer: a mark in either case, an optional sign and digits. -/
def hexadecimalChars (upper : Bool) (sign : Sign) (digits : List (Digit 16)) : List Char :=
  '0' :: (if upper then 'X' else 'x') :: (sign.chars ++ digits.map Digit.char)

/-- The texts that denote numbers, without the blanks around them. -/
inductive Numeral where
  | empty
  | infinity (sign : Sign)
  | hexadecimal (upper : Bool) (digits : List (Digit 16)) (ne_nil : digits ≠ [])
  | decimal (l : DecimalLiteral)

namespace Numeral

/-- The characters of a numeral. A hexadecimal literal has no sign. -/
def chars : Numeral → List Char
  | empty => []
  | infinity sign => sign.chars ++ "Infinity".toList
  | hexadecimal upper digits _ => hexadecimalChars upper .none digits
  | decimal l => l.chars

/-- What a numeral denotes: zero, an infinity, or the number nearest to its value. -/
def Denotes : Numeral → Number → Prop
  | empty, n => n = zero false
  | infinity sign, n => n = Number.infinity sign.negative
  | hexadecimal _ digits _, n => Nearest false (valueOf digits) n
  | decimal l, n => Nearest l.sign.negative l.value n

end Numeral

/-! ## Digits -/

section Digits

variable {base : Nat} {ds : List (Digit base)} {cs rest : List Char} {c : Char} {v : Nat}

theorem valueOf_eq_foldl (ds : List (Digit base)) :
    valueOf ds = ds.foldl (fun value d => value * base + d.value) 0 := by
  rw [valueOf, Nat.ofDigits_eq_foldr, List.map_reverse, List.foldr_reverse, List.foldl_map]
  simp only [Nat.cast_id, Nat.add_comm, Nat.mul_comm]

theorem valueOf_lt (hbase : 1 < base) (ds : List (Digit base)) : valueOf ds < base ^ ds.length := by
  have hlt : ∀ x ∈ ds.reverse.map fun d => (d.value : Nat), x < base := by
    intro x hx
    obtain ⟨d, -, rfl⟩ := List.mem_map.1 hx
    exact d.value.isLt
  have hbound := Nat.ofDigits_lt_base_pow_length hbase hlt
  rw [List.length_map, List.length_reverse] at hbound
  exact hbound

theorem digit?_char (d : Digit 10) : digit? d.char = some (d.value : Nat) := by
  have hall : ∀ (value : Fin 10) (upper : Bool),
      digit? (Digit.char ⟨value, upper⟩) = some (value : Nat) := by decide
  exact hall d.value d.upper

theorem hexDigit?_char (d : Digit 16) : hexDigit? d.char = some (d.value : Nat) := by
  have hall : ∀ (value : Fin 16) (upper : Bool),
      hexDigit? (Digit.char ⟨value, upper⟩) = some (value : Nat) := by decide
  exact hall d.value d.upper

/-- Characters between two others are found by their distance from the first. -/
theorem eq_ofNat_of_le {low high : Char} (hlow : low ≤ c) (hhigh : c ≤ high) :
    c.toNat - low.toNat ≤ high.toNat - low.toNat ∧
      c = Char.ofNat (low.toNat + (c.toNat - low.toNat)) := by
  have hlow' : low.toNat ≤ c.toNat := hlow
  have hhigh' : c.toNat ≤ high.toNat := hhigh
  refine ⟨by omega, ?_⟩
  rw [Nat.add_sub_cancel' hlow', Char.ofNat_toNat]

theorem exists_digit (h : isDigit c = true) : ∃ d : Digit 10, d.char = c := by
  unfold isDigit digit? at h
  split at h
  · rename_i hc
    obtain ⟨hle, hchar⟩ := eq_ofNat_of_le hc.1 hc.2
    rw [hchar]
    generalize c.toNat - '0'.toNat = i at hle
    have hall : ∀ i : Fin 10, Digit.char ⟨i, false⟩ = Char.ofNat ('0'.toNat + i) := by decide
    exact ⟨⟨⟨i, Nat.lt_succ_of_le hle⟩, false⟩, hall _⟩
  · cases h

theorem exists_hexDigit (h : (hexDigit? c).isSome = true) : ∃ d : Digit 16, d.char = c := by
  have hletter : ∀ (upper : Bool) (i : Fin 6),
      (⟨⟨i + 10, by omega⟩, upper⟩ : Digit 16).char =
        Char.ofNat ((if upper then 'A' else 'a').toNat + i) := by decide
  unfold hexDigit? at h
  split at h
  · rename_i hc
    obtain ⟨d, hd⟩ := exists_digit (c := c) (by rw [isDigit, digit?, if_pos hc]; rfl)
    have hall : ∀ (i : Fin 10) (upper : Bool),
        (⟨i.castLE (by decide), upper⟩ : Digit 16).char = Digit.char ⟨i, upper⟩ := by decide
    exact ⟨_, (hall d.value d.upper).trans hd⟩
  · split at h
    · rename_i hc
      obtain ⟨hle, hchar⟩ := eq_ofNat_of_le hc.1 hc.2
      exact ⟨_, (hletter false ⟨_, Nat.lt_succ_of_le hle⟩).trans hchar.symm⟩
    · split at h
      · rename_i hc
        obtain ⟨hle, hchar⟩ := eq_ofNat_of_le hc.1 hc.2
        exact ⟨_, (hletter true ⟨_, Nat.lt_succ_of_le hle⟩).trans hchar.symm⟩
      · cases h

/-- Characters each of which is that of a digit are the characters of digits. -/
theorem exists_map_char (h : ∀ c ∈ cs, ∃ d : Digit base, d.char = c) :
    ∃ ds : List (Digit base), ds.map Digit.char = cs :=
  (Set.ext_iff.1 (Set.range_list_map Digit.char) cs).2 h

theorem exists_digits (h : ∀ c ∈ cs, isDigit c = true) :
    ∃ ds : List (Digit 10), ds.map Digit.char = cs :=
  exists_map_char fun c hc => exists_digit (h c hc)

theorem isDigit_of_mem_map {ds : List (Digit 10)} (h : c ∈ ds.map Digit.char) :
    isDigit c = true := by
  obtain ⟨d, -, rfl⟩ := List.mem_map.1 h
  rw [isDigit, digit?_char]
  rfl

/-! ### Runs of digits -/

/-- What is left of a text does not start with a digit. -/
def NoDigit (rest : List Char) : Prop := ∀ c ∈ rest.head?, isDigit c = false

theorem noDigit_dropWhile (cs : List Char) : NoDigit (cs.dropWhile isDigit) := by
  intro c hc
  have hhead := List.head?_dropWhile_not isDigit cs
  rw [Option.mem_def.1 hc] at hhead
  simpa using hhead

theorem takeWhile_of_noDigit (h : NoDigit rest) : rest.takeWhile isDigit = [] := by
  cases rest with
  | nil => rfl
  | cons c rest => rw [List.takeWhile_cons, h c rfl, if_neg Bool.false_ne_true]

theorem dropWhile_of_noDigit (h : NoDigit rest) : rest.dropWhile isDigit = rest := by
  cases rest with
  | nil => rfl
  | cons c rest => rw [List.dropWhile_cons, h c rfl, if_neg Bool.false_ne_true]

/-- A run of digits is taken as a whole. -/
theorem takeWhile_digits (ds : List (Digit 10)) (h : NoDigit rest) :
    (ds.map Digit.char ++ rest).takeWhile isDigit = ds.map Digit.char := by
  rw [List.takeWhile_append_of_pos fun _ => isDigit_of_mem_map, takeWhile_of_noDigit h,
    List.append_nil]

theorem dropWhile_digits (ds : List (Digit 10)) (h : NoDigit rest) :
    (ds.map Digit.char ++ rest).dropWhile isDigit = rest := by
  rw [List.dropWhile_append_of_pos fun _ => isDigit_of_mem_map, dropWhile_of_noDigit h]

/-- Every text is a run of digits and what follows it. -/
theorem exists_run (cs : List Char) :
    ∃ (ds : List (Digit 10)) (rest : List Char), cs = ds.map Digit.char ++ rest ∧ NoDigit rest := by
  have hrun : ∀ c ∈ cs.takeWhile isDigit, isDigit c = true := fun _ => List.mem_takeWhile_imp
  obtain ⟨ds, hds⟩ := exists_digits hrun
  refine ⟨ds, cs.dropWhile isDigit, ?_, noDigit_dropWhile cs⟩
  rw [hds, List.takeWhile_append_dropWhile]

/-! ### Values -/

/-- Digits after others with a value. -/
theorem digitsAfter_map_char (v : Nat) (ds : List (Digit 10)) :
    digitsAfter v (ds.map Digit.char) =
      ds.foldl (fun value d => value * 10 + (d.value : Nat)) v := by
  rw [digitsAfter, List.foldl_map]
  simp only [digit?_char, Option.getD_some]

theorem digitsValue_map_char (ds : List (Digit 10)) :
    digitsValue (ds.map Digit.char) = valueOf ds := by
  rw [digitsValue_eq, digitsAfter_map_char, valueOf_eq_foldl]

/-- The value of hexadecimal digits after others, if all are digits. -/
def hexAfter (value? : Option Nat) (digits : List Char) : Option Nat :=
  digits.foldl (fun value? c => do return (← value?) * 16 + (← hexDigit? c)) value?

theorem hexAfter_none (cs : List Char) : hexAfter none cs = none := by
  induction cs with
  | nil => rfl
  | cons c cs ih => exact ih

theorem hexAfter_map_char (v : Nat) (ds : List (Digit 16)) : hexAfter (some v) (ds.map Digit.char) =
    some (ds.foldl (fun value d => value * 16 + (d.value : Nat)) v) := by
  induction ds generalizing v with
  | nil => rfl
  | cons d ds ih =>
    rw [List.map_cons, hexAfter, List.foldl_cons, hexDigit?_char]
    exact ih (v * 16 + d.value)

/-- Only digits have a value. By induction, as a failure stays one. -/
theorem isSome_of_hexAfter {w : Nat} (h : hexAfter (some w) cs = some v) :
    ∀ c ∈ cs, (hexDigit? c).isSome = true := by
  induction cs generalizing w with
  | nil => exact fun c hc => absurd hc List.not_mem_nil
  | cons c cs ih =>
    rw [hexAfter, List.foldl_cons] at h
    cases hc : hexDigit? c with
    | none =>
      rw [hc] at h
      have hfailed : hexAfter none cs = some v := h
      rw [hexAfter_none] at hfailed
      cases hfailed
    | some d =>
      rw [hc] at h
      exact List.forall_mem_cons.2 ⟨by rw [hc]; rfl, ih h⟩

/-- Hexadecimal digits are read to their value. -/
theorem hexDigits?_map_char {ds : List (Digit 16)} (h : ds ≠ []) :
    hexDigits? (ds.map Digit.char) = some (valueOf ds) := by
  have hnil : (ds.map Digit.char).isEmpty = false := by
    rw [List.isEmpty_eq_false_iff]
    exact mt List.map_eq_nil_iff.1 h
  rw [hexDigits?, hnil, if_neg Bool.false_ne_true, valueOf_eq_foldl]
  exact hexAfter_map_char 0 ds

/-- Only digits are read. -/
theorem exists_of_hexDigits? (h : hexDigits? cs = some v) :
    ∃ ds : List (Digit 16), ds ≠ [] ∧ ds.map Digit.char = cs := by
  unfold hexDigits? at h
  split at h
  · cases h
  · rename_i hnil
    have hdigits : ∀ c ∈ cs, (hexDigit? c).isSome = true := isSome_of_hexAfter h
    obtain ⟨ds, rfl⟩ := exists_map_char fun c hc => exists_hexDigit (hdigits c hc)
    exact ⟨ds, fun hds => hnil (by rw [hds]; rfl), rfl⟩

end Digits

/-! ## Signs -/

section Signs

variable {cs rest : List Char} {c : Char}

/-- What is left of a text does not start with a sign. -/
def NoSign (rest : List Char) : Prop := ∀ c ∈ rest.head?, c ≠ '-' ∧ c ≠ '+'

theorem noSign_of_isDigit (h : isDigit c = true) (rest : List Char) : NoSign (c :: rest) := by
  intro x hx
  obtain rfl := Option.mem_some.1 hx
  constructor
  · rintro rfl
    exact absurd h (by decide)
  · rintro rfl
    exact absurd h (by decide)

theorem noSign_map_char {ds : List (Digit 10)} (h : ds ≠ []) (rest : List Char) :
    NoSign (ds.map Digit.char ++ rest) := by
  obtain ⟨d, ds, rfl⟩ := List.exists_cons_of_ne_nil h
  have hmem : d.char ∈ (d :: ds).map Digit.char := List.mem_cons_self
  exact noSign_of_isDigit (isDigit_of_mem_map hmem) _

theorem splitSign_of_noSign (h : NoSign rest) : splitSign rest = (false, rest) := by
  unfold splitSign
  split
  · exact absurd rfl (h '-' rfl).1
  · exact absurd rfl (h '+' rfl).2
  · rfl

theorem splitSign_chars (sign : Sign) (h : NoSign rest) :
    splitSign (sign.chars ++ rest) = (sign.negative, rest) := by
  cases sign with
  | none => exact splitSign_of_noSign h
  | plus | minus => rfl

/-- Every text is an optional sign and what follows it. -/
theorem exists_sign (cs : List Char) :
    ∃ sign : Sign, cs = sign.chars ++ (splitSign cs).2 ∧ (splitSign cs).1 = sign.negative := by
  unfold splitSign
  split
  · exact ⟨.minus, rfl, rfl⟩
  · exact ⟨.plus, rfl, rfl⟩
  · exact ⟨.none, rfl, rfl⟩

end Signs

/-! ## Hexadecimal integers -/

section Hexadecimal

variable {cs : List Char} {i : Int}

/-- The integers of 64 bits. -/
def FitsWord (i : Int) : Prop := -2 ^ 63 ≤ i ∧ i < 2 ^ 63

instance (i : Int) : Decidable (FitsWord i) := inferInstanceAs (Decidable (_ ∧ _))

theorem noSign_hexadecimal {ds : List (Digit 16)} (h : ds ≠ []) : NoSign (ds.map Digit.char) := by
  have hall : ∀ (value : Fin 16) (upper : Bool),
      Digit.char ⟨value, upper⟩ ≠ '-' ∧ Digit.char ⟨value, upper⟩ ≠ '+' := by decide
  obtain ⟨d, ds, rfl⟩ := List.exists_cons_of_ne_nil h
  intro x hx
  obtain rfl := Option.mem_some.1 hx
  exact hall d.value d.upper

/-- A signed hexadecimal integer is read if it fits into a word. -/
theorem hexInteger?_chars (sign : Sign) {ds : List (Digit 16)} (h : ds ≠ []) :
    hexInteger? (sign.chars ++ ds.map Digit.char) =
      if FitsWord (sign.apply (valueOf ds)) then some (sign.apply (valueOf ds)) else none := by
  have hword : signBit = 2 ^ 63 := rfl
  unfold hexInteger?
  rw [splitSign_chars sign (noSign_hexadecimal h)]
  dsimp only
  rw [hexDigits?_map_char h, hword]
  generalize valueOf ds = v
  have hpositive : v < 2 ^ 63 ↔ FitsWord v := by
    unfold FitsWord
    omega
  have hnegative : v ≤ 2 ^ 63 ↔ FitsWord (-(v : Int)) := by
    unfold FitsWord
    omega
  cases sign with
  | none | plus => exact (if_neg Bool.false_ne_true).trans (if_congr hpositive rfl rfl)
  | minus => exact (if_pos rfl).trans (if_congr hnegative rfl rfl)

/-- Only signed hexadecimal integers are read. -/
theorem exists_of_hexInteger? (h : hexInteger? cs = some i) :
    ∃ (sign : Sign) (ds : List (Digit 16)), ds ≠ [] ∧ cs = sign.chars ++ ds.map Digit.char := by
  obtain ⟨sign, hcs, -⟩ := exists_sign cs
  unfold hexInteger? at h
  dsimp only at h
  cases hdigits : hexDigits? (splitSign cs).2 with
  | none =>
    rw [hdigits] at h
    cases h
  | some v =>
    obtain ⟨ds, hne, hds⟩ := exists_of_hexDigits? hdigits
    exact ⟨sign, ds, hne, by rw [hds]; exact hcs⟩

end Hexadecimal

/-! ## Exponents -/

section Exponents

variable {cs : List Char} {e i : Int}

/-- How an exponent is counted: as it is written, or only up to a value that is far from those of
all numbers. -/
def Counts (written counted : Int) : Prop :=
  counted = written ∨ 2 ^ 16 ≤ counted ∧ counted ≤ written ∨ written ≤ counted ∧ counted ≤ -2 ^ 16

/-- Digits are counted until the limit is reached, after which their value can only grow. By
induction on the digits. -/
theorem exponentValue_cases (cs : List Char) : exponentValue cs = digitsValue cs ∨
    2 ^ 16 ≤ exponentValue cs ∧ exponentValue cs ≤ digitsValue cs := by
  have hcount : ∀ (cs : List Char) (value : Nat), exponentLimit ≤ value →
      cs.foldl (fun value c => if value < exponentLimit then value * 10 + (digit? c).getD 0
        else value) value = value := by
    intro cs value hlimit
    induction cs with
    | nil => rfl
    | cons c cs ih => rw [List.foldl_cons, if_neg (Nat.not_lt.2 hlimit), ih]
  have hall : ∀ (cs : List Char) (value : Nat) (counted : Nat),
      cs.foldl (fun value c => if value < exponentLimit then value * 10 + (digit? c).getD 0
        else value) value = counted →
      counted = digitsAfter value cs ∨
        exponentLimit ≤ counted ∧ counted ≤ digitsAfter value cs := by
    intro cs
    induction cs with
    | nil => exact fun value counted h => .inl h.symm
    | cons c cs ih =>
      intro value counted h
      by_cases hlimit : value < exponentLimit
      · rw [List.foldl_cons, if_pos hlimit] at h
        exact ih _ _ h
      · rw [hcount _ _ (Nat.not_lt.1 hlimit)] at h
        subst h
        exact .inr ⟨Nat.not_lt.1 hlimit, le_digitsAfter _ _⟩
  rw [digitsValue_eq]
  exact hall cs 0 _ rfl

namespace Exponent

/-- The integer that an exponent is counted as. -/
def counted (x : Exponent) : Int := x.sign.apply (exponentValue (x.digits.map Digit.char))

theorem counts (x : Exponent) : Counts x.value x.counted := by
  unfold Counts value counted Sign.apply
  rw [← digitsValue_map_char]
  have hcases := exponentValue_cases (x.digits.map Digit.char)
  split <;> omega

theorem noDigit_chars (x : Exponent) : NoDigit x.chars := by
  intro c hc
  obtain rfl := Option.mem_some.1 hc
  cases x.upper <;> decide

theorem exponentPart?_chars (x : Exponent) : exponentPart? x.chars = some x.counted := by
  have hmark : (if x.upper then 'E' else 'e') = 'e' ∨ (if x.upper then 'E' else 'e') = 'E' := by
    cases x.upper <;> decide
  have hdigits : ((x.digits.map Digit.char).isEmpty ||
      !(x.digits.map Digit.char).all isDigit) = false := by
    rw [Bool.or_eq_false_iff, List.isEmpty_eq_false_iff, Bool.not_eq_false']
    exact ⟨mt List.map_eq_nil_iff.1 x.ne_nil, List.all_eq_true.2 fun _ => isDigit_of_mem_map⟩
  have hsplit := splitSign_chars x.sign (noSign_map_char x.ne_nil [])
  rw [List.append_nil] at hsplit
  rw [chars, exponentPart?, if_pos hmark, hsplit]
  dsimp only
  rw [hdigits, if_neg Bool.false_ne_true]
  rfl

/-- Only exponents are read. -/
theorem exists_of_exponentPart? (h : exponentPart? cs = some i) :
    ∃ x? : Option Exponent, cs = x?.elim [] chars := by
  unfold exponentPart? at h
  split at h
  · exact ⟨none, rfl⟩
  · rename_i c rest
    dsimp only at h
    split at h
    · rename_i hmark
      split at h
      · cases h
      · rename_i hdigits
        obtain ⟨sign, hrest, -⟩ := exists_sign rest
        rw [Bool.or_eq_true, not_or, Bool.not_eq_true, Bool.not_eq_true, Bool.not_eq_false',
          List.isEmpty_eq_false_iff] at hdigits
        obtain ⟨ds, hds⟩ := exists_digits (List.all_eq_true.1 hdigits.2)
        have hne : ds ≠ [] := by
          rintro rfl
          exact hdigits.1 hds.symm
        rw [← hds] at hrest
        rw [hrest]
        rcases hmark with rfl | rfl
        · exact ⟨some ⟨false, sign, ds, hne⟩, rfl⟩
        · exact ⟨some ⟨true, sign, ds, hne⟩, rfl⟩
    · cases h

end Exponent

end Exponents

end Number

end ReactiveScript
