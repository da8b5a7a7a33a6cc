import ReactiveScript.Proofs.ExactArithmetic
import ReactiveScript.Proofs.NumberGrammar
import ReactiveScript.Proofs.NumberText

/-!
# Reading written numbers

What is written of a finite number is a decimal literal, whose value is rounded to this number: it
is the shortest decimal that was found to read back, or all digits of the number. The exponent of
the literal is small, as it would not be rounded to a finite number other than zero otherwise, so
that it is counted as it is written.
-/

namespace ReactiveScript

namespace Number

/-- The sign that is written in front of a magnitude. -/
def Sign.ofBool (negative : Bool) : Sign := if negative then .minus else .none

theorem Sign.negative_ofBool (negative : Bool) : (ofBool negative).negative = negative := by
  cases negative <;> rfl

theorem signed_eq (negative : Bool) (magnitude : List Char) :
    signed negative magnitude = (Sign.ofBool negative).chars ++ magnitude := by
  cases negative <;> rfl

/-! ## Literals from characters -/

/-- The literal that is made of digits before and after a point, and of an exponent. -/
theorem exists_literal (sign : Sign) {whole : List Char} (fraction : Option (List Char))
    (hwhole : whole.all isDigit = true) (hfraction : (fraction.getD []).all isDigit = true)
    (hne : whole ++ fraction.getD [] ≠ [])
    (exponent : Option Exponent) : ∃ l : DecimalLiteral,
      l.chars = sign.chars ++ (whole ++ (fraction.elim [] ('.' :: ·) ++
        exponent.elim [] Exponent.chars)) ∧
      l.sign = sign ∧ l.scale = exponent.elim 0 Exponent.value ∧
      l.value = digitsValue (whole ++ fraction.getD []) *
        10 ^ (exponent.elim 0 Exponent.value - (fraction.getD []).length) := by
  obtain ⟨ds, rfl⟩ := exists_digits (List.all_eq_true.1 hwhole)
  obtain ⟨fs, hfs⟩ : ∃ fs : Option (List (Digit 10)), fraction = fs.map (List.map Digit.char) := by
    cases fraction with
    | none => exact ⟨none, rfl⟩
    | some cs =>
      obtain ⟨fs, rfl⟩ := exists_digits (List.all_eq_true.1 hfraction)
      exact ⟨some fs, rfl⟩
  have hgetD : fraction.getD [] = (fs.getD []).map Digit.char := by
    rw [hfs]
    cases fs <;> rfl
  rw [hgetD, ← List.map_append] at hne ⊢
  refine ⟨⟨sign, ds, fs, exponent, mt List.map_eq_nil_iff.2 hne⟩, ?_, rfl, rfl, ?_⟩
  · rw [hfs]
    cases fs <;> rfl
  · rw [digitsValue_map_char, List.length_map]
    rfl

end Number

/-! ## Written decimals -/

namespace Decimal

open Number

variable {d : Decimal} {sign : Sign}

/-- The value of a decimal. -/
def value (d : Decimal) : ℚ := d.digits * 10 ^ d.exponent

/-- The exponent of the leading digit. -/
def leading (d : Decimal) : Int := d.exponent + ((digitsOf d.digits).length - 1 : Nat)

/-- What is written of a decimal after a sign is a literal with its value. -/
structure Writes (sign : Sign) (d : Decimal) (cs : List Char) (l : DecimalLiteral) : Prop where
  chars : l.chars = sign.chars ++ cs
  sign : l.sign = sign
  value : l.value = d.value

/-- A fraction of as many digits as the exponent is below zero. -/
theorem exists_pointed (sign : Sign) (whole : List Char) {fraction : List Char}
    (hwhole : whole.all isDigit = true) (hfraction : fraction.all isDigit = true) (hne : whole ≠ [])
    (hvalue : digitsValue (whole ++ fraction) = d.digits)
    (hlength : -(fraction.length : Int) = d.exponent) :
    ∃ l, Writes sign d (whole ++ '.' :: fraction) l ∧ l.scale = 0 := by
  obtain ⟨l, hchars, hsign, hscale, hl⟩ := exists_literal sign (some fraction) hwhole
    hfraction (List.append_ne_nil_of_left_ne_nil hne _) none
  refine ⟨l, ⟨?_, hsign, ?_⟩, hscale⟩
  · rw [hchars]
    exact congrArg (sign.chars ++ ·) (congrArg (whole ++ ·) (List.append_nil _))
  · rw [hl, value, ← hlength, ← hvalue]
    show (_ : ℚ) * 10 ^ (0 - (fraction.length : Int)) = _
    rw [zero_sub]
    rfl

theorem exists_withPoint (sign : Sign) (h : ¬ 0 ≤ d.exponent) :
    ∃ l, Writes sign d (withPoint (digitsOf d.digits) (-d.exponent).toNat) l ∧ l.scale = 0 := by
  have hdigits := all_isDigit_digitsOf d.digits
  have hzero : isDigit '0' = true := by decide
  unfold withPoint
  split
  · rename_i hlength
    refine exists_pointed sign ['0'] (by decide) ?_ (List.cons_ne_nil _ _) ?_ ?_
    · rw [List.all_append, all_replicate_zero hzero, hdigits]
      rfl
    · rw [← List.append_assoc, List.singleton_append, ← List.replicate_succ,
        digitsValue_zeros_append, digitsValue_digitsOf]
    · rw [List.length_append, List.length_replicate]
      omega
  · rename_i hlength
    have hsplit := List.take_append_drop ((digitsOf d.digits).length - (-d.exponent).toNat)
      (digitsOf d.digits)
    refine exists_pointed sign _ (all_of_sublist (List.take_sublist _ _) hdigits)
      (all_of_sublist (List.drop_sublist _ _) hdigits) ?_ ?_ ?_
    · intro hnil
      have hcount := congrArg List.length hnil
      rw [List.length_take, List.length_nil] at hcount
      omega
    · rw [hsplit, digitsValue_digitsOf]
    · rw [List.length_drop]
      omega

theorem exists_positional (sign : Sign) (d : Decimal) :
    ∃ l, Writes sign d (positional false d) l ∧ l.scale = 0 := by
  unfold positional
  dsimp only
  by_cases hexponent : 0 ≤ d.exponent
  · rw [if_pos hexponent, if_neg Bool.false_ne_true, List.append_nil]
    have hdigits :
        (digitsOf d.digits ++ List.replicate d.exponent.toNat '0').all isDigit = true := by
      rw [List.all_append, all_isDigit_digitsOf, all_replicate_zero (by decide)]
      rfl
    obtain ⟨l, hchars, hsign, hscale, hl⟩ := exists_literal sign none hdigits rfl
      (by simp [digitsOf_ne_nil]) none
    refine ⟨l, ⟨?_, hsign, ?_⟩, hscale⟩
    · rw [hchars]
      exact congrArg (sign.chars ++ ·) (List.append_nil _)
    · obtain ⟨k, hk⟩ := Int.eq_ofNat_of_zero_le hexponent
      rw [hl, value]
      show (digitsValue (_ ++ []) : ℚ) * 10 ^ (0 - ((0 : Nat) : Int)) = _
      rw [List.append_nil, digitsValue_append_zeros, hk, Int.toNat_natCast, Nat.cast_zero, sub_zero,
        zpow_zero, mul_one, Nat.cast_mul, Nat.cast_pow, Nat.cast_ofNat, zpow_natCast]
  · rw [if_neg hexponent]
    exact exists_withPoint sign hexponent

/-- An exponent with its sign is written as that of a literal. -/
theorem exists_exponent (e : Int) : ∃ x : Exponent, x.value = e ∧
    x.chars = 'e' :: (if e < 0 then '-' else '+') :: digitsOf e.natAbs := by
  obtain ⟨ds, hds⟩ := exists_digits (List.all_eq_true.1 (all_isDigit_digitsOf e.natAbs))
  have hne : ds ≠ [] := by
    rintro rfl
    exact digitsOf_ne_nil _ hds.symm
  have hvalue : valueOf ds = e.natAbs := by
    rw [← digitsValue_map_char, hds, digitsValue_digitsOf]
  by_cases hneg : e < 0
  · refine ⟨⟨false, .minus, ds, hne⟩, ?_, ?_⟩
    · show -(valueOf ds : Int) = e
      omega
    · rw [if_pos hneg, ← hds]
      rfl
  · refine ⟨⟨false, .plus, ds, hne⟩, ?_, ?_⟩
    · show (valueOf ds : Int) = e
      omega
    · rw [if_neg hneg, ← hds]
      rfl

theorem exists_scientific (sign : Sign) (d : Decimal) :
    ∃ l, Writes sign d (scientific d) l ∧ l.scale = d.leading := by
  obtain ⟨x, hx, hxchars⟩ := exists_exponent d.leading
  have hdigits := all_isDigit_digitsOf d.digits
  have hsplit := List.take_append_drop 1 (digitsOf d.digits)
  have hpos : 0 < (digitsOf d.digits).length := List.length_pos_iff.2 (digitsOf_ne_nil _)
  -- The point is left out if no digit follows it.
  obtain ⟨fraction, hgetD, hpoint⟩ : ∃ fraction : Option (List Char),
      fraction.getD [] = (digitsOf d.digits).drop 1 ∧ fraction.elim [] ('.' :: ·) =
        if ((digitsOf d.digits).drop 1).isEmpty then [] else '.' :: (digitsOf d.digits).drop 1 := by
    cases hdrop : (digitsOf d.digits).drop 1 with
    | nil => exact ⟨none, rfl, rfl⟩
    | cons c cs => exact ⟨some (c :: cs), rfl, rfl⟩
  obtain ⟨l, hchars, hsign, hscale, hl⟩ := exists_literal sign fraction
    (all_of_sublist (List.take_sublist 1 _) hdigits)
    (by rw [hgetD]; exact all_of_sublist (List.drop_sublist 1 _) hdigits)
    (by rw [hgetD, hsplit]; exact digitsOf_ne_nil _) (some x)
  refine ⟨l, ⟨?_, hsign, ?_⟩, hscale.trans hx⟩
  · rw [hchars, hpoint, scientific]
    dsimp only [Option.elim]
    rw [hxchars, List.append_assoc]
    rfl
  · have hexponent : d.leading - (((digitsOf d.digits).length - 1 : Nat) : Int) = d.exponent := by
      unfold leading
      omega
    rw [hl, hgetD, hsplit, digitsValue_digitsOf, List.length_drop]
    dsimp only [Option.elim]
    rw [hx, hexponent]
    rfl

/-- A decimal is written as a literal with its value, the exponent of which is that of the leading
digit if there is one. -/
theorem exists_write (sign : Sign) (d : Decimal) :
    ∃ l, Writes sign d (write layout d) l ∧ (l.scale = 0 ∨ l.scale = d.leading) := by
  unfold write
  dsimp only
  split
  · obtain ⟨l, hl, hscale⟩ := exists_positional sign d
    exact ⟨l, hl, .inl hscale⟩
  · obtain ⟨l, hl, hscale⟩ := exists_scientific sign d
    exact ⟨l, hl, .inr hscale⟩

/-! ## The shortest decimal -/

theorem value_exact (c : Nat) (e : Int) : (exact c e).value = c * 2 ^ e := by
  have hcast : ∀ base k : Nat, ((Nat.pow base k : Nat) : ℚ) = (base : ℚ) ^ k := Nat.cast_pow
  unfold exact value
  by_cases he : 0 ≤ e
  · obtain ⟨k, rfl⟩ := Int.eq_ofNat_of_zero_le he
    rw [if_pos he, Int.toNat_natCast, Nat.cast_mul, hcast, Nat.cast_ofNat, zpow_zero, mul_one,
      zpow_natCast]
  · obtain ⟨k, rfl⟩ : ∃ k : Nat, e = -(k : Int) := ⟨(-e).toNat, by omega⟩
    have hten : (10 : ℚ) = 5 * 2 := by norm_num
    have hfive : (5 : ℚ) ^ k ≠ 0 := pow_ne_zero k (by norm_num)
    rw [if_neg he, neg_neg, Int.toNat_natCast, Nat.cast_mul, hcast, Nat.cast_ofNat, zpow_neg,
      zpow_neg, zpow_natCast, zpow_natCast, hten, mul_pow, mul_inv, mul_assoc,
      mul_inv_cancel_left₀ hfive]

/-- The shortest decimal of a number is rounded to this number: it was found to read back, or it has
all the digits. -/
theorem nearest_shortest {n : Number} {negative : Bool} {c : Nat} {e : Int} (tie : Tie)
    (h : n.shape = .finite negative c e) : Nearest negative (shortest tie c e).value n := by
  rcases shortest_cases tie c e with hexact | hreads
  · rw [hexact, value_exact]
    exact nearest_of_shape h
  · have hnearest := nearest_ofDecimal false (shortest tie c e).digits (shortest tie c e).exponent
    have hmagnitude := shape_ofRatio_ofPower h false
    rw [← hreads] at hmagnitude
    exact hnearest.shape_eq hmagnitude h

theorem pow_le_digits {k : Nat} (h : k ≠ 0) : 10 ^ ((digitsOf k).length - 1) ≤ k := by
  by_cases hone : (digitsOf k).length - 1 = 0
  · rw [hone, Nat.pow_zero]
    exact Nat.pos_of_ne_zero h
  · refine Nat.not_lt.1 fun hlt => ?_
    have hle : (digitsOf k).length ≤ (digitsOf k).length - 1 :=
      (Nat.length_toDigits_le_iff (by decide) (Nat.pos_of_ne_zero hone)).2 hlt
    omega

theorem digits_lt_pow (k : Nat) : k < 10 ^ (digitsOf k).length :=
  (Nat.length_toDigits_le_iff (by decide) (List.length_pos_iff.2 (digitsOf_ne_nil k))).1
    (Nat.le_refl _)

/-- A decimal that is rounded to a finite number other than zero has a small exponent. -/
theorem leading_bounds {n : Number} {negative : Bool} {c : Nat} {e : Int}
    (h : Nearest negative d.value n) (hshape : n.shape = .finite negative c e) (hc : c ≠ 0) :
    -361 < d.leading ∧ d.leading < 342 := by
  have hnonzero : n ≠ zero negative := by
    rintro rfl
    rw [shape_zero] at hshape
    exact hc (Shape.finite.inj hshape).2.1.symm
  have hten : (0 : ℚ) < 10 ^ d.exponent := zpow_pos (by norm_num) _
  constructor
  · by_contra hsmall
    have hlt : d.value < 10 ^ (d.leading + 1) := by
      have hcast : (d.digits : ℚ) < 10 ^ (digitsOf d.digits).length := by
        exact_mod_cast digits_lt_pow d.digits
      have hpos : 0 < (digitsOf d.digits).length := List.length_pos_iff.2 (digitsOf_ne_nil _)
      have hsum : d.leading + 1 = (digitsOf d.digits).length + d.exponent := by
        unfold leading
        omega
      rw [hsum, zpow_add₀ (by norm_num), zpow_natCast]
      exact mul_lt_mul_of_pos_right hcast hten
    have hnonneg : 0 ≤ d.value := by
      unfold value
      positivity
    exact hnonzero (h.eq_zero (by omega) hnonneg hlt)
  · by_contra hlarge
    have hdigits : d.digits ≠ 0 := by
      intro hzero
      rw [value, hzero, Nat.cast_zero, zero_mul] at h
      exact hnonzero (h.unique (nearest_zero negative))
    have hle : (10 : ℚ) ^ d.leading ≤ d.value := by
      have hcast : (10 : ℚ) ^ ((digitsOf d.digits).length - 1) ≤ d.digits := by
        exact_mod_cast pow_le_digits hdigits
      rw [leading, add_comm, zpow_add₀ (by norm_num), zpow_natCast]
      exact mul_le_mul_of_nonneg_right hcast hten.le
    rw [h.eq_infinity (by omega) hle, shape_infinity] at hshape
    cases hshape

end Decimal

/-! ## Reading back -/

namespace Number

variable {m n : Number} {negative : Bool} {c k : Nat} {e i : Int} {cs : List Char}

theorem isBlank_of_isNumberChar {c : Char} (h : isNumberChar c = true) :
    Text.isBlank c = false := by
  rcases Bool.or_eq_true_iff.1 h with hdigit | hother
  · obtain ⟨d, rfl⟩ := exists_digit hdigit
    have hall : ∀ (value : Fin 10) (upper : Bool),
        Text.isBlank (Digit.char ⟨value, upper⟩) = false := by decide
    exact hall d.value d.upper
  · have hall : ("+-.INaefinty".toList.all fun c => !Text.isBlank c) = true := by decide
    have hc := List.all_eq_true.1 hall c (List.contains_iff_mem.1 hother)
    rwa [Bool.not_eq_true'] at hc

/-- There are no blanks around the text of a number. -/
theorem trim_chars (n : Number) : Text.trim n.chars = n.chars := by
  have hblank : ∀ c ∈ n.chars, Text.isBlank c = false := fun c hc =>
    isBlank_of_isNumberChar (List.all_eq_true.1 n.all_isNumberChar_chars c hc)
  have hdrop : ∀ cs : List Char, (∀ c ∈ cs, Text.isBlank c = false) →
      cs.dropWhile Text.isBlank = cs := by
    intro cs hcs
    cases cs with
    | nil => rfl
    | cons c cs => rw [List.dropWhile_cons, hcs c List.mem_cons_self, if_neg Bool.false_ne_true]
  rw [Text.trim, hdrop _ hblank, hdrop _ fun c hc => hblank c (List.mem_reverse.1 hc),
    List.reverse_reverse]

theorem parse_format (n : Number) : parse n.format = parseTrimmed n.chars := by
  rw [parse, format, String.toList_ofList, trim_chars]

/-- A written decimal is read as the number nearest to it. -/
theorem nearest_of_writes {d : Decimal} {l : DecimalLiteral}
    (h : Decimal.Writes (.ofBool negative) d cs l) (hscale : l.scale.natAbs < 2 ^ 16) :
    Nearest negative d.value (parseTrimmed (signed negative cs)) := by
  have hread := l.nearest_value (.inl hscale) (nearest_parseTrimmed l)
  rw [h.chars, ← signed_eq, h.sign, Sign.negative_ofBool, h.value] at hread
  exact hread

/-- The shortest decimal of a number other than zero is read as this number. -/
theorem parseTrimmed_writeShortest (hshape : n.shape = .finite negative c e) (hc : c ≠ 0) :
    parseTrimmed (signed negative (Decimal.writeShortest layout c e)) = n := by
  have hnearest := Decimal.nearest_shortest layout.tie hshape
  obtain ⟨hlow, hhigh⟩ := Decimal.leading_bounds hnearest hshape hc
  obtain ⟨l, hl, hscale⟩ :=
    Decimal.exists_write (.ofBool negative) (Decimal.shortest layout.tie c e)
  exact (nearest_of_writes hl (by omega)).unique hnearest

/-- The digits of a natural are read as the number nearest to it. -/
theorem nearest_digitsOf (negative : Bool) (k : Nat) :
    Nearest negative k (parseTrimmed (signed negative (Decimal.digitsOf k))) := by
  obtain ⟨l, hl, hscale⟩ := Decimal.exists_positional (.ofBool negative) ⟨k, 0⟩
  have hvalue : (Decimal.mk k 0).value = k := mul_one _
  have hchars : Decimal.positional false ⟨k, 0⟩ = Decimal.digitsOf k := by
    show Decimal.digitsOf k ++ [] ++ [] = Decimal.digitsOf k
    rw [List.append_nil, List.append_nil]
  have hnearest := nearest_of_writes hl (by rw [hscale]; decide)
  rw [hvalue, hchars] at hnearest
  exact hnearest

/-- The digits of an integer are read as this number, but for the sign of zero. -/
theorem parseTrimmed_digitsOf (hshape : n.shape = .finite negative c e) (hi : n.toInt? = some i) :
    parseTrimmed (signed (decide (i < 0)) (Decimal.digitsOf i.natAbs)) =
      if c = 0 then zero false else n := by
  have hread := nearest_digitsOf (decide (i < 0)) i.natAbs
  have hvalue := natAbs_of_toInt? hshape hi
  have hsigned := toInt?_of_shape hshape hvalue
  rw [hi, Option.some.injEq] at hsigned
  by_cases hc : c = 0
  · have hnatAbs : i.natAbs = 0 := by
      rw [hc, Nat.cast_zero, zero_mul] at hvalue
      exact_mod_cast hvalue.symm
    rw [if_pos hc]
    rw [hnatAbs, decide_eq_false (by omega), Nat.cast_zero] at hread
    rw [hnatAbs, decide_eq_false (by omega)]
    exact hread.unique (nearest_zero false)
  · have hnatAbs : i.natAbs ≠ 0 := by
      intro hzero
      rw [hzero, Nat.cast_zero] at hvalue
      have hpos : (0 : ℚ) < 2 ^ e := zpow_pos two_pos e
      exact hc (Nat.cast_eq_zero.1 ((mul_eq_zero_iff_right hpos.ne').1 hvalue))
    have hnegative : decide (i < 0) = negative := by
      cases negative with
      | false =>
        rw [if_neg Bool.false_ne_true] at hsigned
        exact decide_eq_false (by omega)
      | true =>
        rw [if_pos rfl] at hsigned
        exact decide_eq_true (by omega)
    have hown := nearest_of_shape hshape
    rw [hvalue] at hown
    rw [if_neg hc]
    rw [hnegative] at hread ⊢
    exact hread.unique hown

/-- The text of a number is read as this number, but for the sign of zero. -/
theorem parse_format_eq (h : n.isNaN = false) :
    parse n.format = if n.isZero then zero false else n := by
  rw [parse_format]
  cases hshape : n.shape with
  | nan =>
    rw [eq_nan_of_shape hshape] at h
    exact absurd h (by decide)
  | infinite negative =>
    have hchars : n.chars = signed negative "Infinity".toList := by
      unfold chars
      rw [hshape]
    have hzero : n.isZero = false := by
      unfold isZero
      rw [hshape]
    rw [hchars, signed_eq, parseTrimmed_infinity, Sign.negative_ofBool, hzero,
      if_neg Bool.false_ne_true, eq_infinity_of_shape hshape]
  | finite negative c e =>
    have hzero : n.isZero = (c == 0) := by
      unfold isZero
      rw [hshape]
    rw [hzero]
    by_cases hsmall : ∃ i, n.toInt? = some i ∧ i.natAbs < digitLimit
    · obtain ⟨i, hi, hlt⟩ := hsmall
      rw [chars_of_toInt? hi hlt, parseTrimmed_digitsOf hshape hi]
      exact if_congr beq_iff_eq.symm rfl rfl
    · have hlarge : ∀ i, n.toInt? = some i → digitLimit ≤ i.natAbs :=
        fun i hi => Nat.not_lt.1 fun hlt => hsmall ⟨i, hi, hlt⟩
      have hc : c ≠ 0 := by
        rintro rfl
        have hi := toInt?_of_shape (k := 0) hshape (by rw [Nat.cast_zero, zero_mul])
        have hlimit := hlarge _ hi
        cases negative <;> exact absurd hlimit (by decide)
      rw [chars_of_shape hshape hlarge, parseTrimmed_writeShortest hshape hc,
        beq_false_of_ne hc, if_neg Bool.false_ne_true]

/-- What is read equals the number. -/
theorem equals_parse_format (h : n.isNaN = false) : n.equals (parse n.format) = true := by
  have hnan : n ≠ Float.nan := by
    rintro rfl
    exact absurd h (by decide)
  rw [equals_iff, parse_format_eq h]
  refine ⟨hnan, ?_⟩
  by_cases hzero : n.isZero = true
  · rw [if_pos hzero, hzero]
    exact .inr (isZero_of_shape (shape_zero false))
  · rw [if_neg hzero]
    exact .inl rfl

/-- Numbers that have one text are equal. -/
theorem equals_of_format (hm : m.isNaN = false) (hn : n.isNaN = false)
    (h : m.format = n.format) : m.equals n = true := by
  have hequals := equals_parse_format hm
  rw [h, parse_format_eq hn, equals_iff] at hequals
  rw [equals_iff]
  by_cases hzero : n.isZero = true
  · rw [if_pos hzero] at hequals
    refine ⟨hequals.1, .inr ?_⟩
    rcases hequals.2 with rfl | hboth
    · rw [isZero_of_shape (shape_zero false), hzero]
      rfl
    · rw [(Bool.and_eq_true_iff.1 hboth).1, hzero]
      rfl
  · rw [if_neg hzero] at hequals
    exact hequals

/-! ## Integers -/

/-- The digits of an integer after its sign are its text. -/
theorem toString_int (i : Int) :
    toString i = String.ofList (signed (decide (i < 0)) (Decimal.digitsOf i.natAbs)) := by
  cases i with
  | ofNat k =>
    have hsign : decide (Int.ofNat k < 0) = false :=
      decide_eq_false (Int.not_lt.2 (Int.natCast_nonneg k))
    rw [hsign]
    rfl
  | negSucc k =>
    rw [decide_eq_true (Int.negSucc_lt_zero k)]
    refine String.toList_inj.1 ?_
    show ("-" ++ String.ofList (Nat.toDigits 10 k.succ)).toList = _
    rw [String.toList_append, String.toList_ofList, String.toList_ofList]
    exact (String.toList_ofList).symm

/-- An integer below the limit is written with all its digits. -/
theorem format_of_shape (hshape : n.shape = .finite negative c e) (hvalue : (c : ℚ) * 2 ^ e = k)
    (hk : k < 10 ^ 21) : n.format = toString (if negative then -(k : Int) else k) := by
  have hlimit : digitLimit = 10 ^ 21 := rfl
  have hnatAbs : (if negative then -(k : Int) else k).natAbs = k := by
    split <;> omega
  rw [toString_int, format, chars_of_toInt? (toInt?_of_shape hshape hvalue) (by omega)]

end Number

open Number

/-- Reading a number undoes writing it, for all numbers but NaN: what is read is the number itself,
or the positive zero for a zero, so that different numbers have different texts and a number loosely
equals its text. An integer below `10 ^ 21` is written with all its digits. -/
theorem number_texts_read_back (st : Store) (n : Number) (h : n.isNaN = false) :
    (parse n.format = if n.isZero then zero false else n) ∧
    n.equals (parse n.format) = true ∧
    (∀ m : Number, m.isNaN = false → m.equals n = false → m.format ≠ n.format) ∧
    (Value.number n).looseEquals st (.string ((Value.number n).display st)) = true ∧
    (Value.string ((Value.number n).display st)).looseEquals st (.number n) = true ∧
    ∀ negative c e k, n.shape = .finite negative c e → (c : ℚ) * 2 ^ e = (k : Nat) →
      k < 10 ^ 21 → n.format = toString (if negative then -(k : Int) else k) := by
  have hequals := equals_parse_format h
  have hdisplay : (Value.number n).display st = n.format := by
    unfold Value.display
    cases st.depthBound <;> rfl
  rw [hdisplay]
  refine ⟨parse_format_eq h, hequals, fun m hm hne htext => ?_, hequals, hequals,
    fun negative c e k => format_of_shape⟩
  rw [equals_of_format hm h htext] at hne
  cases hne

/-- The greatest negative number is read back, and its text is not that of zero. -/
theorem number_texts_read_back_greatestNegative :
    (ofMagnitudeBits true 1).isNaN = false ∧
      parse (ofMagnitudeBits true 1).format = ofMagnitudeBits true 1 ∧
      (zero false).format ≠ (ofMagnitudeBits true 1).format := by
  have hnan : (ofMagnitudeBits true 1).isNaN = false := by decide
  have hzero : (ofMagnitudeBits true 1).isZero = false := by decide
  obtain ⟨hread, -, hdifferent, -⟩ := number_texts_read_back default (ofMagnitudeBits true 1) hnan
  rw [hzero, if_neg Bool.false_ne_true] at hread
  exact ⟨hnan, hread, hdifferent _ (by decide) (by decide)⟩

end ReactiveScript
