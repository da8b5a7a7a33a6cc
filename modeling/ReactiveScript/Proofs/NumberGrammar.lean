import ReactiveScript.Proofs.Literals

/-!
# Texts that denote numbers

Every numeral is read as the number it denotes, and what is read otherwise is not a number, with two
exceptions: hexadecimal integers are those of 64 signed bits, so that greater ones are not numbers,
and may have a sign after their mark. An exponent of a decimal literal is counted up to a value that
decides the number alone, unless there are tens of thousands of digits.
-/

namespace ReactiveScript

namespace Number

variable {l : DecimalLiteral} {cs : List Char} {n : Number} {negative : Bool} {sign : Sign}
  {ds : List (Digit 16)} {e i : Int}

/-! ## Decimal literals -/

namespace DecimalLiteral

/-- The integer that the exponent is counted as. -/
def counted (l : DecimalLiteral) : Int := l.exponent.elim 0 Exponent.counted

theorem counts (l : DecimalLiteral) : Counts l.scale l.counted := by
  unfold scale counted
  cases l.exponent with
  | none => exact .inl rfl
  | some x => exact x.counts

theorem noDigit_exponentChars (l : DecimalLiteral) : NoDigit l.exponentChars := by
  unfold exponentChars
  cases l.exponent with
  | none => exact fun _ hc => absurd hc (Option.not_mem_none _)
  | some x => exact x.noDigit_chars

theorem noDigit_fractionChars (l : DecimalLiteral) :
    NoDigit (l.fractionChars ++ l.exponentChars) := by
  unfold fractionChars
  cases l.fraction with
  | none => exact l.noDigit_exponentChars
  | some digits =>
    intro c hc
    obtain rfl := Option.mem_some.1 hc
    decide

/-- Without a point there is no fraction. -/
theorem splitFraction_exponentChars (l : DecimalLiteral) :
    splitFraction l.exponentChars = ([], l.exponentChars) := by
  unfold splitFraction
  split
  · rename_i after hpoint
    unfold exponentChars at hpoint
    cases hexponent : l.exponent with
    | none =>
      rw [hexponent] at hpoint
      cases hpoint
    | some x =>
      rw [hexponent] at hpoint
      have hmark : (if x.upper then 'E' else 'e') = '.' := (List.cons.inj hpoint).1
      cases hupper : x.upper <;> rw [hupper] at hmark <;> exact absurd hmark (by decide)
  · rfl

theorem splitFraction_chars (l : DecimalLiteral) :
    splitFraction (l.fractionChars ++ l.exponentChars) =
      ((l.fraction.getD []).map Digit.char, l.exponentChars) := by
  have hrest := l.noDigit_exponentChars
  unfold fractionChars
  cases l.fraction with
  | none => exact l.splitFraction_exponentChars
  | some digits =>
    show ((digits.map Digit.char ++ l.exponentChars).takeWhile isDigit,
      (digits.map Digit.char ++ l.exponentChars).dropWhile isDigit) = _
    rw [takeWhile_digits digits hrest, dropWhile_digits digits hrest]
    rfl

theorem isEmpty_map_char (front back : List (Digit 10)) :
    ((front.map Digit.char).isEmpty && (back.map Digit.char).isEmpty) =
      (front ++ back).isEmpty := by
  rw [List.isEmpty_map, List.isEmpty_map]
  cases front <;> rfl

theorem noSign_whole (l : DecimalLiteral) :
    NoSign (l.whole.map Digit.char ++ (l.fractionChars ++ l.exponentChars)) := by
  by_cases hwhole : l.whole = []
  · have hfraction := l.ne_nil
    rw [hwhole, List.nil_append] at hfraction
    rw [hwhole]
    unfold fractionChars
    cases hdigits : l.fraction with
    | none =>
      rw [hdigits] at hfraction
      exact absurd rfl hfraction
    | some digits =>
      intro c hc
      obtain rfl := Option.mem_some.1 hc
      decide
  · exact noSign_map_char hwhole _

/-- A literal is read, with its exponent as it is counted. -/
theorem decimal?_chars (l : DecimalLiteral) : decimal? l.chars =
    some (ofDecimal l.sign.negative (valueOf l.digits) (l.counted - l.places)) := by
  have hrun := l.noDigit_fractionChars
  have hsome : (l.whole ++ l.fraction.getD []).isEmpty = false :=
    List.isEmpty_eq_false_iff.2 l.ne_nil
  have hexponent : exponentPart? l.exponentChars = some l.counted := by
    unfold exponentChars counted
    cases l.exponent with
    | none => rfl
    | some x => exact x.exponentPart?_chars
  unfold decimal? chars
  rw [splitSign_chars l.sign l.noSign_whole]
  dsimp only
  rw [takeWhile_digits l.whole hrun, dropWhile_digits l.whole hrun, l.splitFraction_chars]
  dsimp only
  rw [isEmpty_map_char, hsome, if_neg Bool.false_ne_true, hexponent, ← List.map_append,
    digitsValue_map_char, List.length_map]
  rfl

/-- Every text is an optional fraction and what follows it. -/
theorem exists_fraction (cs : List Char) : ∃ fraction : Option (List (Digit 10)),
    cs = (fraction.elim [] fun digits => '.' :: digits.map Digit.char) ++ (splitFraction cs).2 ∧
      (splitFraction cs).1 = (fraction.getD []).map Digit.char := by
  unfold splitFraction
  split
  · rename_i after
    obtain ⟨digits, rest, rfl, hrest⟩ := exists_run after
    refine ⟨some digits, ?_, takeWhile_digits digits hrest⟩
    rw [dropWhile_digits digits hrest]
    rfl
  · exact ⟨none, rfl, rfl⟩

/-- Only literals are read. -/
theorem exists_of_decimal? (h : decimal? cs = some n) : ∃ l : DecimalLiteral, cs = l.chars := by
  obtain ⟨sign, hcs, -⟩ := exists_sign cs
  obtain ⟨whole, rest, hunsigned, hrest⟩ := exists_run (splitSign cs).2
  obtain ⟨fraction, hfraction, hdigits⟩ := exists_fraction rest
  unfold decimal? at h
  dsimp only at h
  rw [hunsigned, takeWhile_digits whole hrest, dropWhile_digits whole hrest, hdigits,
    isEmpty_map_char] at h
  split at h
  · cases h
  · rename_i hne
    have hne' : whole ++ fraction.getD [] ≠ [] := mt List.isEmpty_iff.2 hne
    cases hread : exponentPart? (splitFraction rest).2 with
    | none =>
      rw [hread] at h
      cases h
    | some e =>
      obtain ⟨exponent, hexponent⟩ := Exponent.exists_of_exponentPart? hread
      refine ⟨⟨sign, whole, fraction, exponent, hne'⟩, ?_⟩
      rw [hcs, hunsigned, hfraction, hexponent]
      rfl

/-! ### Exponents that are counted in part -/

/-- The exponent is counted as it is written, or the digits are so few that what is counted of it
decides the number alone. -/
def Counted (l : DecimalLiteral) : Prop := l.scale.natAbs < 2 ^ 16 ∨ l.digits.length ≤ 65000

theorem places_le (l : DecimalLiteral) : l.places ≤ l.digits.length := by
  unfold places digits
  rw [List.length_append]
  exact Nat.le_add_left _ _

theorem zpow_le_valueAt (h : valueOf l.digits ≠ 0) (e : Int) :
    (10 : ℚ) ^ (e - l.places) ≤ l.valueAt e := by
  have hone : (1 : ℚ) ≤ valueOf l.digits := by exact_mod_cast Nat.pos_of_ne_zero h
  exact le_mul_of_one_le_left (zpow_pos (by norm_num) _).le hone

theorem valueAt_lt_zpow (l : DecimalLiteral) (e : Int) :
    l.valueAt e < (10 : ℚ) ^ (l.digits.length + (e - l.places)) := by
  have hlt : (valueOf l.digits : ℚ) < 10 ^ l.digits.length := by
    exact_mod_cast valueOf_lt (by decide) l.digits
  rw [zpow_add₀ (by norm_num), zpow_natCast]
  exact mul_lt_mul_of_pos_right hlt (zpow_pos (by norm_num) _)

theorem valueAt_nonneg (l : DecimalLiteral) (e : Int) : 0 ≤ l.valueAt e := by
  unfold valueAt
  positivity

/-- A great exponent that is counted in part makes the number infinite, as the whole one does. -/
theorem nearest_of_greater (hlength : l.digits.length ≤ 65000) (hi : 2 ^ 16 ≤ i) (hie : i ≤ e)
    (h : Nearest negative (l.valueAt i) n) : Nearest negative (l.valueAt e) n := by
  have hplaces := l.places_le
  by_cases hzero : valueOf l.digits = 0
  · have hvalue : ∀ e, l.valueAt e = 0 := fun e => by rw [valueAt, hzero, Nat.cast_zero, zero_mul]
    rw [hvalue] at h ⊢
    exact h
  · have hgreat : ∀ e : Int, i ≤ e → (10 : ℚ) ^ (342 : Int) ≤ l.valueAt e := fun e he =>
      (zpow_le_zpow_right₀ (by norm_num) (by omega)).trans (zpow_le_valueAt hzero e)
    rw [h.eq_infinity (le_refl _) (hgreat i (le_refl i))]
    exact .infinite rfl ((overflowBound_le_zpow (le_refl _)).trans (hgreat e hie))

/-- A small exponent that is counted in part makes the number zero, as the whole one does. -/
theorem nearest_of_less (hlength : l.digits.length ≤ 65000) (hi : i ≤ -2 ^ 16) (hie : e ≤ i)
    (h : Nearest negative (l.valueAt i) n) : Nearest negative (l.valueAt e) n := by
  have hsmall : ∀ e : Int, e ≤ i → l.valueAt e < (10 : ℚ) ^ (-360 : Int) := fun e he =>
    (l.valueAt_lt_zpow e).trans_le (zpow_le_zpow_right₀ (by norm_num) (by omega))
  have hfar := zpow_lt_leastExponent (le_refl (-360))
  have hlt := hsmall e hie
  have hnonneg := l.valueAt_nonneg e
  rw [h.eq_zero (le_refl _) (l.valueAt_nonneg i) (hsmall i (le_refl i))]
  exact nearest_zero_of_lt hnonneg (by linarith only [hfar, hlt, hnonneg]) negative

/-- What is read is the number nearest to the value of the literal. -/
theorem nearest_value (hcounted : l.Counted) (h : Nearest negative (l.valueAt l.counted) n) :
    Nearest negative l.value n := by
  unfold value
  rcases l.counts with hsame | ⟨hlow, hle⟩ | ⟨hle, hhigh⟩
  · rw [← hsame]
    exact h
  · exact nearest_of_greater (hcounted.resolve_left (by omega)) hlow hle h
  · exact nearest_of_less (hcounted.resolve_left (by omega)) hhigh hle h

end DecimalLiteral

/-! ## Whole texts -/

/-- The characters of decimal literals. -/
def isDecimalChar (c : Char) : Bool := isDigit c || ".eE+-".toList.contains c

theorem isDecimalChar_of_mem_map {ds : List (Digit 10)} {c : Char} (h : c ∈ ds.map Digit.char) :
    isDecimalChar c = true := by
  rw [isDecimalChar, isDigit_of_mem_map h, Bool.true_or]

theorem isDecimalChar_of_mem_sign {c : Char} (h : c ∈ sign.chars) : isDecimalChar c = true := by
  cases sign with
  | none => exact absurd h List.not_mem_nil
  | plus | minus =>
    obtain rfl := List.mem_singleton.1 h
    decide

theorem Exponent.isDecimalChar_of_mem {x : Exponent} {c : Char} (h : c ∈ x.chars) :
    isDecimalChar c = true := by
  rcases List.mem_cons.1 h with rfl | hrest
  · cases x.upper <;> decide
  · exact (List.mem_append.1 hrest).elim isDecimalChar_of_mem_sign isDecimalChar_of_mem_map

theorem DecimalLiteral.isDecimalChar_of_mem {c : Char} (h : c ∈ l.chars) :
    isDecimalChar c = true := by
  unfold chars fractionChars exponentChars at h
  rcases List.mem_append.1 h with hsign | h
  · exact isDecimalChar_of_mem_sign hsign
  rcases List.mem_append.1 h with hwhole | h
  · exact isDecimalChar_of_mem_map hwhole
  rcases List.mem_append.1 h with hfraction | hexponent
  · cases hdigits : l.fraction with
    | none =>
      rw [hdigits] at hfraction
      exact absurd hfraction List.not_mem_nil
    | some digits =>
      rw [hdigits] at hfraction
      rcases List.mem_cons.1 hfraction with rfl | hdigit
      · decide
      · exact isDecimalChar_of_mem_map hdigit
  · cases hx : l.exponent with
    | none =>
      rw [hx] at hexponent
      exact absurd hexponent List.not_mem_nil
    | some x =>
      rw [hx] at hexponent
      exact x.isDecimalChar_of_mem hexponent

/-- Decimal literals are not taken for anything else. -/
theorem parseTrimmed_decimal (h : decimal? l.chars = some n) : parseTrimmed l.chars = n := by
  have hother : ∀ c, isDecimalChar c = false → c ∉ l.chars := by
    intro c hc hmem
    rw [l.isDecimalChar_of_mem hmem] at hc
    cases hc
  have hx := hother 'x' (by decide)
  have hX := hother 'X' (by decide)
  have hI := hother 'I' (by decide)
  unfold parseTrimmed
  split
  · rename_i hnil
    rw [hnil] at h
    cases h
  · rename_i hchars
    rw [hchars] at hx
    exact absurd (by simp) hx
  · rename_i hchars
    rw [hchars] at hX
    exact absurd (by simp) hX
  · have hinfinity : ¬ (l.chars = "Infinity".toList ∨ l.chars = "+Infinity".toList) := by
      rintro (hchars | hchars) <;> rw [hchars] at hI <;> exact hI (by decide)
    have hnegative : l.chars ≠ "-Infinity".toList := by
      intro hchars
      rw [hchars] at hI
      exact hI (by decide)
    rw [if_neg hinfinity, if_neg hnegative, h]
    rfl

theorem parseTrimmed_hexadecimal (upper : Bool) (sign : Sign) (ds : List (Digit 16)) :
    parseTrimmed (hexadecimalChars upper sign ds) =
      (hexInteger? (sign.chars ++ ds.map Digit.char)).elim nan ofInt := by
  cases upper <;> rfl

theorem parseTrimmed_infinity (sign : Sign) :
    parseTrimmed (sign.chars ++ "Infinity".toList) = infinity sign.negative := by
  cases sign <;> rfl

/-- An integer is rounded to the nearest number. -/
theorem nearest_ofInt (i : Int) : Nearest (decide (i < 0)) i.natAbs (ofInt i) := by
  have hnearest := nearest_ofRatio (r := Ratio.ofNat i.natAbs) Nat.one_pos (decide (i < 0))
  rw [Ratio.toRat_ofNat] at hnearest
  exact hnearest

namespace Numeral

/-- Hexadecimal literals are limited to words of 64 signed bits. -/
def Fits : Numeral → Prop
  | hexadecimal _ digits _ => FitsWord (valueOf digits)
  | _ => True

/-- Exponents are counted as far as they matter. -/
def Counted : Numeral → Prop
  | decimal l => l.Counted
  | _ => True

end Numeral

/-- What is read as a number after a hexadecimal mark is a signed integer that fits into a word. -/
theorem exists_hexadecimal (upper : Bool) (h : (hexInteger? cs).elim nan ofInt ≠ nan) :
    ∃ sign ds, ds ≠ [] ∧
      '0' :: (if upper then 'X' else 'x') :: cs = hexadecimalChars upper sign ds ∧
      FitsWord (sign.apply (valueOf ds)) := by
  cases hread : hexInteger? cs with
  | none =>
    rw [hread] at h
    exact absurd rfl h
  | some i =>
    obtain ⟨sign, ds, hne, rfl⟩ := exists_of_hexInteger? hread
    refine ⟨sign, ds, hne, rfl, ?_⟩
    by_contra hfits
    rw [hexInteger?_chars sign hne, if_neg hfits] at hread
    cases hread

/-- What is read as a number is a numeral or a signed hexadecimal integer. -/
theorem exists_of_parseTrimmed (h : parseTrimmed cs ≠ nan) :
    (∃ l : Numeral, cs = l.chars ∧ l.Fits) ∨ ∃ upper sign ds, ds ≠ [] ∧
      cs = hexadecimalChars upper sign ds ∧ FitsWord (sign.apply (valueOf ds)) := by
  unfold parseTrimmed at h
  split at h
  · exact .inl ⟨.empty, rfl, trivial⟩
  · exact .inr ⟨false, exists_hexadecimal false h⟩
  · exact .inr ⟨true, exists_hexadecimal true h⟩
  · split at h
    · rename_i hchars
      rcases hchars with rfl | rfl
      · exact .inl ⟨.infinity .none, rfl, trivial⟩
      · exact .inl ⟨.infinity .plus, rfl, trivial⟩
    · split at h
      · rename_i hchars
        exact .inl ⟨.infinity .minus, hchars, trivial⟩
      · cases hread : decimal? cs with
        | none =>
          rw [hread] at h
          exact absurd rfl h
        | some n =>
          obtain ⟨l, hl⟩ := DecimalLiteral.exists_of_decimal? hread
          exact .inl ⟨.decimal l, hl, trivial⟩

/-- Signed hexadecimal integers are read as words. -/
theorem parseTrimmed_signed (upper : Bool) (sign : Sign) (hne : ds ≠ []) :
    let i := sign.apply (valueOf ds)
    (FitsWord i →
        Nearest (decide (i < 0)) i.natAbs (parseTrimmed (hexadecimalChars upper sign ds))) ∧
      (¬ FitsWord i → parseTrimmed (hexadecimalChars upper sign ds) = nan) := by
  dsimp only
  rw [parseTrimmed_hexadecimal, hexInteger?_chars sign hne]
  refine ⟨fun hfits => ?_, fun hfits => ?_⟩
  · rw [if_pos hfits]
    exact nearest_ofInt _
  · rw [if_neg hfits]
    rfl

/-- Decimal literals are read, with their exponents as they are counted. -/
theorem nearest_parseTrimmed (l : DecimalLiteral) :
    Nearest l.sign.negative (l.valueAt l.counted) (parseTrimmed l.chars) := by
  rw [parseTrimmed_decimal l.decimal?_chars]
  exact nearest_ofDecimal _ _ _

/-- A numeral denotes one number. -/
theorem Numeral.Denotes.unique {l : Numeral} {m : Number} (hm : l.Denotes m) (hn : l.Denotes n) :
    m = n := by
  cases l with
  | empty | infinity sign => exact hm.trans hn.symm
  | hexadecimal upper digits hne => exact Nearest.unique hm hn
  | decimal l => exact Nearest.unique hm hn

/-- Numerals are read as what they denote. -/
theorem denotes_parseTrimmed (l : Numeral) (hfits : l.Fits) (hcounted : l.Counted) :
    l.Denotes (parseTrimmed l.chars) := by
  cases l with
  | empty => rfl
  | infinity sign => exact parseTrimmed_infinity sign
  | hexadecimal upper digits hne =>
    have hvalue : Sign.none.apply (valueOf digits) = valueOf digits := rfl
    have hnearest := (parseTrimmed_signed upper .none hne).1 hfits
    rw [hvalue, decide_eq_false (by omega), Int.natAbs_natCast] at hnearest
    exact hnearest
  | decimal l => exact l.nearest_value hcounted (nearest_parseTrimmed l)

theorem ne_nan_of_shape (h : n.shape ≠ .nan) : n ≠ nan := by
  rintro rfl
  exact h (by decide)

theorem Nearest.ne_nan {q : ℚ} (h : Nearest negative q n) : n ≠ nan :=
  ne_nan_of_shape h.shape_ne_nan

/-- No numeral that fits is read as a NaN. -/
theorem parseTrimmed_ne_nan (l : Numeral) (hfits : l.Fits) : parseTrimmed l.chars ≠ nan := by
  cases l with
  | empty => exact ne_nan_of_shape (by decide)
  | infinity sign =>
    have hread := parseTrimmed_infinity sign
    rw [Numeral.chars, hread]
    exact ne_nan_of_shape (by rw [shape_infinity]; exact Shape.noConfusion)
  | hexadecimal upper digits hne => exact ((parseTrimmed_signed upper .none hne).1 hfits).ne_nan
  | decimal l => exact (nearest_parseTrimmed l).ne_nan

end Number

open Number

/-- Texts are read as numbers by their grammar: after the blanks around it are dropped, a numeral is
read as what it denotes, a signed hexadecimal integer as a word, and nothing else is a number. From
`2 ^ 16` on an exponent may be counted in part, which does not matter up to 65000 digits. -/
theorem texts_denote_numbers (s : String) :
    (∀ l : Numeral, Text.trim s.toList = l.chars → l.Fits → l.Counted →
      ∀ n, l.Denotes n ↔ n = parse s) ∧
    (∀ l : DecimalLiteral, Text.trim s.toList = l.chars →
      ∃ e, Counts l.scale e ∧ Nearest l.sign.negative (l.valueAt e) (parse s)) ∧
    (∀ (upper : Bool) (sign : Sign) (digits : List (Digit 16)), digits ≠ [] →
      Text.trim s.toList = hexadecimalChars upper sign digits →
      (FitsWord (sign.apply (valueOf digits)) →
        Nearest (decide (sign.apply (valueOf digits) < 0)) (sign.apply (valueOf digits)).natAbs
          (parse s)) ∧
      (¬ FitsWord (sign.apply (valueOf digits)) → parse s = nan)) ∧
    (parse s ≠ nan ↔ (∃ l : Numeral, Text.trim s.toList = l.chars ∧ l.Fits) ∨
      ∃ upper sign digits, digits ≠ [] ∧ Text.trim s.toList = hexadecimalChars upper sign digits ∧
        FitsWord (sign.apply (valueOf digits))) := by
  unfold parse
  refine ⟨?numerals, ?decimals, ?signed, ?numbers⟩
  case numerals =>
    intro l hl hfits hcounted n
    have hread := denotes_parseTrimmed l hfits hcounted
    rw [hl]
    exact ⟨fun h => h.unique hread, fun h => h ▸ hread⟩
  case decimals =>
    intro l hl
    rw [hl]
    exact ⟨l.counted, l.counts, nearest_parseTrimmed l⟩
  case signed =>
    intro upper sign digits hne hdigits
    rw [hdigits]
    exact parseTrimmed_signed upper sign hne
  case numbers =>
    refine ⟨exists_of_parseTrimmed, ?_⟩
    rintro (⟨l, hl, hfits⟩ | ⟨upper, sign, digits, hne, hdigits, hfits⟩)
    · rw [hl]
      exact parseTrimmed_ne_nan l hfits
    · rw [hdigits]
      exact ((parseTrimmed_signed upper sign hne).1 hfits).ne_nan

example : parse " 0x1F\n" = ofInt 31 := by rfl

/-- The hexadecimal literal of `2 ^ 63` is not read as what it denotes, and `0x-5` is read as a
number though it is no numeral. -/
theorem hexadecimal_texts_are_words :
    (∃ l : Numeral, Text.trim "0x8000000000000000".toList = l.chars ∧
      ¬ l.Denotes (parse "0x8000000000000000")) ∧
    (∀ l : Numeral, Text.trim "0x-5".toList ≠ l.chars) ∧ parse "0x-5" ≠ nan := by
  refine ⟨?great, ?numerals, ?signed⟩
  case great =>
    refine ⟨.hexadecimal false (⟨8, false⟩ :: List.replicate 15 ⟨0, false⟩) (List.cons_ne_nil _ _),
      by decide, fun hdenotes => ?_⟩
    have hread : parse "0x8000000000000000" = nan := by rfl
    rw [hread] at hdenotes
    exact Nearest.ne_nan hdenotes rfl
  case numerals =>
    intro l hl
    cases l with
    | empty => exact absurd hl (by decide)
    | infinity sign => cases sign <;> exact absurd hl (by decide)
    | hexadecimal upper digits hne =>
      have hdigits : ['-', '5'] = digits.map Digit.char := (List.cons.inj (List.cons.inj hl).2).2
      have hsign := noSign_hexadecimal hne
      rw [← hdigits] at hsign
      exact (hsign '-' rfl).1 rfl
    | decimal l =>
      have hmark : 'x' ∈ l.chars := by
        rw [show l.chars = "0x-5".toList from hl.symm]
        decide
      exact absurd (l.isDecimalChar_of_mem hmark) (by decide)
  case signed =>
    have hread : parse "0x-5" = ofInt (-5) := by rfl
    rw [hread]
    exact (nearest_ofInt (-5)).ne_nan

end ReactiveScript
