import ReactiveScript.Number.Format
import ReactiveScript.Proofs.IndexWords
import ReactiveScript.Proofs.Json.Token
import ReactiveScript.Proofs.Rounding

/-!
# The text of a number

Which characters stand in the text of a number, and which texts consist of digits only. The shortest
decimal of a number reads back as that number, unless it has all its digits anyway. So a decimal
without a fraction is the decimal of a natural, and below `2 ^ 53` its digits are the digits of this
natural.
-/

namespace ReactiveScript

/-! ## Digits -/

namespace Number

/-- Digits after others: their value follows from the value of those before. -/
theorem digitsAfter_append (value : Nat) (front back : List Char) :
    digitsAfter value (front ++ back) = digitsAfter (digitsAfter value front) back :=
  List.foldl_append

/-- The digits of a natural have its value. By strong induction, as the last digit is split off. -/
theorem digitsValue_digitsOf (k : Nat) : digitsValue (Decimal.digitsOf k) = k := by
  rw [digitsValue_eq]
  unfold Decimal.digitsOf
  induction k using Nat.strongRecOn with
  | _ k ih =>
    rw [Nat.toDigits_eq_if (by omega)]
    split
    · rename_i hlt
      rw [digitsAfter_cons, digit?_digitChar hlt, Nat.zero_mul, Nat.zero_add]
      rfl
    · have hlast : k % 10 < 10 := Nat.mod_lt k (by omega)
      rw [digitsAfter_append, ih (k / 10) (by omega), digitsAfter_cons, digit?_digitChar hlast,
        Option.getD_some]
      exact Nat.div_add_mod' k 10

/-- Zeros at the end are powers of ten. -/
theorem digitsAfter_zeros (value count : Nat) :
    digitsAfter value (List.replicate count '0') = value * 10 ^ count := by
  induction count generalizing value with
  | zero => exact (Nat.mul_one value).symm
  | succ count ih =>
    have hzero : (digit? '0').getD 0 = 0 := by decide
    rw [List.replicate_succ, digitsAfter_cons, hzero, Nat.add_zero, ih, Nat.pow_succ]
    ring

theorem digitsValue_append_zeros (k count : Nat) :
    digitsValue (Decimal.digitsOf k ++ List.replicate count '0') = k * 10 ^ count := by
  rw [digitsValue_eq, digitsAfter_append, digitsAfter_zeros, ← digitsValue_eq, digitsValue_digitsOf]

/-- Zeros in front do not count. -/
theorem digitsValue_zeros_append (count : Nat) (cs : List Char) :
    digitsValue (List.replicate count '0' ++ cs) = digitsValue cs := by
  rw [digitsValue_eq, digitsAfter_append, digitsAfter_zeros, Nat.zero_mul, ← digitsValue_eq]

theorem all_isDigit_digitsOf (k : Nat) : (Decimal.digitsOf k).all isDigit = true :=
  List.all_eq_true.2 fun _ hc => isDigit_of_mem_digitsOf hc

theorem digitsOf_ne_nil (k : Nat) : Decimal.digitsOf k ≠ [] := Nat.toDigits_ne_nil

/-- The characters that texts of numbers are made of. -/
def isNumberChar (c : Char) : Bool := isDigit c || "+-.INaefinty".toList.contains c

theorem isNumberChar_of_isDigit {c : Char} (h : isDigit c = true) : isNumberChar c = true := by
  rw [isNumberChar, h, Bool.true_or]

theorem all_isNumberChar_digitsOf (k : Nat) : (Decimal.digitsOf k).all isNumberChar = true :=
  List.all_eq_true.2 fun _ hc => isNumberChar_of_isDigit (isDigit_of_mem_digitsOf hc)

end Number

/-! ## Decimals -/

namespace Decimal

open Number

variable {tie : Tie} {layout : Layout} {d : Decimal} {n : Number} {r : Ratio} {c : Nat} {e : Int}

/-! ### Characters -/

theorem all_replicate_zero {p : Char → Bool} (hzero : p '0' = true) (count : Nat) :
    (List.replicate count '0').all p = true := by
  refine List.all_eq_true.2 fun x hx => ?_
  rw [List.eq_of_mem_replicate hx, hzero]

theorem all_of_sublist {p : Char → Bool} {front cs : List Char} (hsub : front.Sublist cs)
    (h : cs.all p = true) : front.all p = true :=
  List.all_eq_true.2 fun x hx => List.all_eq_true.1 h x (hsub.subset hx)

theorem all_isNumberChar_withPoint {digits : List Char} (h : digits.all isNumberChar = true)
    (places : Nat) : (withPoint digits places).all isNumberChar = true := by
  have hzero : isNumberChar '0' = true := by decide
  have hpoint : isNumberChar '.' = true := by decide
  unfold withPoint
  split
  · rw [List.all_cons, List.all_cons, List.all_append, hzero, hpoint, all_replicate_zero hzero, h]
    rfl
  · rw [List.all_append, List.all_cons, hpoint, all_of_sublist (List.take_sublist _ _) h,
      all_of_sublist (List.drop_sublist _ _) h]
    rfl

theorem all_isNumberChar_positional (pointed : Bool) (d : Decimal) :
    (positional pointed d).all isNumberChar = true := by
  have hdigits := all_isNumberChar_digitsOf d.digits
  have hzero : isNumberChar '0' = true := by decide
  have hpoint : (if pointed then ['.', '0'] else []).all isNumberChar = true := by
    cases pointed <;> decide
  unfold positional
  dsimp only
  split
  · rw [List.all_append, List.all_append, hdigits, all_replicate_zero hzero, hpoint]
    rfl
  · exact all_isNumberChar_withPoint hdigits _

theorem all_isNumberChar_scientific (d : Decimal) : (scientific d).all isNumberChar = true := by
  have hdigits := all_isNumberChar_digitsOf d.digits
  have hexponent :=
    all_isNumberChar_digitsOf (d.exponent + ((digitsOf d.digits).length - 1 : Nat)).natAbs
  have hmark : isNumberChar 'e' = true := by decide
  have hpoint : isNumberChar '.' = true := by decide
  have hsign : ∀ b : Prop, [Decidable b] → isNumberChar (if b then '-' else '+') = true := by
    intro b _
    split <;> decide
  have hfraction : (if ((digitsOf d.digits).drop 1).isEmpty then []
      else '.' :: (digitsOf d.digits).drop 1).all isNumberChar = true := by
    split
    · rfl
    · rw [List.all_cons, hpoint, all_of_sublist (List.drop_sublist _ _) hdigits]
      rfl
  unfold scientific
  dsimp only
  rw [List.all_append, List.all_append, List.all_cons, List.all_cons, hfraction, hmark, hsign,
    hexponent, all_of_sublist (List.take_sublist _ _) hdigits]
  rfl

theorem all_isNumberChar_write (layout : Layout) (d : Decimal) :
    (write layout d).all isNumberChar = true := by
  unfold write
  dsimp only
  split
  · exact all_isNumberChar_positional _ d
  · exact all_isNumberChar_scientific d

/-! ### Decimals without a fraction -/

theorem not_all_isDigit {cs : List Char} {x : Char} (hmem : x ∈ cs) (hx : isDigit x = false) :
    cs.all isDigit ≠ true := by
  intro h
  rw [List.all_eq_true.1 h x hmem] at hx
  cases hx

/-- A text of digits only is that of a decimal without a fraction: the others have a point or an
exponent. -/
theorem digits_of_write (hpointed : layout.pointed = false)
    (h : (write layout d).all isDigit = true) :
    0 ≤ d.exponent ∧ digitsValue (write layout d) = d.digits * 10 ^ d.exponent.toNat := by
  unfold write at h ⊢
  dsimp only at h ⊢
  split at h
  · rename_i hleading
    rw [if_pos hleading]
    unfold positional at h ⊢
    dsimp only at h ⊢
    by_cases hexponent : 0 ≤ d.exponent
    · rw [if_pos hexponent, hpointed, if_neg Bool.false_ne_true, List.append_nil,
        digitsValue_append_zeros]
      exact ⟨hexponent, rfl⟩
    · rw [if_neg hexponent] at h
      have hpoint : '.' ∈ withPoint (digitsOf d.digits) (-d.exponent).toNat := by
        unfold withPoint
        split <;> simp
      exact absurd h (not_all_isDigit hpoint (by decide))
  · have hmark : 'e' ∈ scientific d := by
      unfold scientific
      simp
    exact absurd h (not_all_isDigit hmark (by decide))

/-! ### Reading back -/

/-- What is found on a grid reads back. -/
theorem toNumber_of_onGrid? (h : onGrid? tie n r e = some d) : d.toNumber = n := by
  unfold onGrid? at h
  dsimp only at h
  split at h
  · rename_i hreads
    cases h
    rw [Bool.and_eq_true, beq_iff_eq, Float.toBits_inj] at hreads
    exact hreads.1
  · split at h
    · rename_i hreads
      cases h
      rw [beq_iff_eq, Float.toBits_inj] at hreads
      exact hreads
    · cases h

/-- What the search finds reads back. By induction on the grids. -/
theorem toNumber_of_search? {count : Nat} (h : search? tie n r count e = some d) :
    d.toNumber = n := by
  induction count generalizing e with
  | zero => cases h
  | succ count ih =>
    rw [search?] at h
    split at h
    · rename_i hgrid
      cases h
      exact toNumber_of_onGrid? hgrid
    · exact ih h

/-- The shortest decimal reads back, unless it has all the digits. -/
theorem shortest_cases (tie : Tie) (c : Nat) (e : Int) :
    shortest tie c e = exact c e ∨
      (shortest tie c e).toNumber = Number.ofRatio false (.ofPower c 2 e) := by
  unfold shortest
  dsimp only
  cases hfound : search? tie (Number.ofRatio false (.ofPower c 2 e)) (.ofPower c 2 e) gridCount
      (coarsest (.ofPower c 2 e)) with
  | none => exact .inl rfl
  | some d => exact .inr (toNumber_of_search? hfound)

/-- A decimal without a fraction reads as infinity or as a natural, and as itself below `2 ^ 53`. -/
theorem toNumber_natural (h : 0 ≤ d.exponent) :
    d.toNumber.shape = .infinite false ∨
      ∃ m : Nat, d.toNumber.toInt? = some (m : Int) ∧
        (d.digits * 10 ^ d.exponent.toNat < 2 ^ 53 → m = d.digits * 10 ^ d.exponent.toNat) := by
  unfold toNumber Number.ofDecimal
  by_cases hdigits : d.digits = 0
  · rw [if_pos hdigits]
    refine .inr ⟨0, toInt?_zero false, fun _ => ?_⟩
    rw [hdigits, Nat.zero_mul]
  · rw [if_neg hdigits]
    by_cases hlarge : 400 < d.exponent
    · rw [if_pos hlarge]
      exact .inl (shape_infinity false)
    · rw [if_neg hlarge, if_neg (by omega)]
      have hrat : (Ratio.ofPower d.digits 10 d.exponent).toRat =
          (d.digits * 10 ^ d.exponent.toNat : Nat) := by
        obtain ⟨k, hk⟩ := Int.eq_ofNat_of_zero_le h
        rw [Ratio.toRat_ofPower, hk, Int.toNat_natCast, zpow_natCast, Nat.cast_mul, Nat.cast_pow]
      have hden : 0 < (Ratio.ofPower d.digits 10 d.exponent).den :=
        Ratio.den_ofPower_pos (by omega) _ _
      rcases ofRatio_natCast hden hrat false with hinfinite | ⟨m, hm, hsame⟩
      · exact .inl hinfinite
      · rw [if_neg Bool.false_ne_true] at hm
        exact .inr ⟨m, hm, hsame⟩

end Decimal

/-! ## Numbers -/

namespace Number

variable {n : Number} {negative : Bool} {c : Nat} {e : Int} {tie : Decimal.Tie}

/-- If the shortest decimal of a number has no fraction, the number is an integer, and the decimal
is its magnitude if it is below `2 ^ 53`. -/
theorem toInt?_of_shortest (hshape : n.shape = .finite negative c e)
    (h : 0 ≤ (Decimal.shortest tie c e).exponent) :
    ∃ i, n.toInt? = some i ∧
      ((Decimal.shortest tie c e).digits * 10 ^ (Decimal.shortest tie c e).exponent.toNat < 2 ^ 53 →
        i.natAbs = (Decimal.shortest tie c e).digits *
          10 ^ (Decimal.shortest tie c e).exponent.toNat) := by
  have hinteger : ∀ k : Nat, (c : ℚ) * 2 ^ e = k → ∃ i, n.toInt? = some i ∧ i.natAbs = k := by
    intro k hk
    refine ⟨_, toInt?_of_shape hshape hk, ?_⟩
    split <;> omega
  rcases Decimal.shortest_cases tie c e with hexact | hreads
  · rw [hexact] at h ⊢
    unfold Decimal.exact at h ⊢
    by_cases he : 0 ≤ e
    · obtain ⟨k, rfl⟩ := Int.eq_ofNat_of_zero_le he
      obtain ⟨i, hi, hnatAbs⟩ := hinteger (c * 2 ^ k) (by
        rw [zpow_natCast, Nat.cast_mul, Nat.cast_pow, Nat.cast_ofNat])
      rw [if_pos he]
      refine ⟨i, hi, fun _ => ?_⟩
      rw [hnatAbs]
      exact (Nat.mul_one _).symm
    · rw [if_neg he] at h
      exact absurd h he
  · have hmagnitude := shape_ofRatio_ofPower hshape false
    rcases Decimal.toNumber_natural h with hinfinite | ⟨m, hm, hsame⟩
    · rw [hreads, hmagnitude] at hinfinite
      cases hinfinite
    · rw [hreads] at hm
      obtain ⟨i, hi, hnatAbs⟩ := hinteger m (natAbs_of_toInt? hmagnitude hm)
      exact ⟨i, hi, fun hlt => hnatAbs.trans (hsame hlt)⟩

/-- The text of an integer below the limit: its sign and its digits. -/
theorem chars_of_toInt? {i : Int} (h : n.toInt? = some i) (hlt : i.natAbs < digitLimit) :
    n.chars = signed (i < 0) (Decimal.digitsOf i.natAbs) := by
  obtain ⟨negative, c, e, hshape, -⟩ := toInt?_eq_some h
  unfold chars
  rw [hshape, h]
  dsimp only
  rw [if_pos hlt]

/-- The text of any other finite number. -/
theorem chars_of_shape (hshape : n.shape = .finite negative c e)
    (h : ∀ i, n.toInt? = some i → digitLimit ≤ i.natAbs) :
    n.chars = signed negative (Decimal.writeShortest layout c e) := by
  unfold chars
  rw [hshape]
  dsimp only
  cases hi : n.toInt? with
  | none => rfl
  | some i =>
    dsimp only
    rw [if_neg (Nat.not_lt.2 (h i hi))]

theorem all_isNumberChar_signed {cs : List Char} (h : cs.all isNumberChar = true) :
    (signed negative cs).all isNumberChar = true := by
  have hsign : isNumberChar '-' = true := by decide
  cases negative with
  | false => exact h
  | true =>
    show ('-' :: cs).all isNumberChar = true
    rw [List.all_cons, hsign, h]
    rfl

/-- How the text of a number comes about: as a word, as the digits of an integer, or as the shortest
decimal. -/
theorem chars_cases (n : Number) :
    n.chars = "NaN".toList ∨ (∃ negative, n.chars = signed negative "Infinity".toList) ∨
      (∃ i, n.toInt? = some i ∧ i.natAbs < digitLimit ∧
        n.chars = signed (i < 0) (Decimal.digitsOf i.natAbs)) ∨
      ∃ negative c e, n.shape = .finite negative c e ∧
        (∀ i, n.toInt? = some i → digitLimit ≤ i.natAbs) ∧
        n.chars = signed negative (Decimal.writeShortest layout c e) := by
  cases hshape : n.shape with
  | nan =>
    refine .inl ?_
    unfold chars
    rw [hshape]
  | infinite negative =>
    refine .inr (.inl ⟨negative, ?_⟩)
    unfold chars
    rw [hshape]
  | finite negative c e =>
    by_cases hsmall : ∃ i, n.toInt? = some i ∧ i.natAbs < digitLimit
    · obtain ⟨i, hi, hlt⟩ := hsmall
      exact .inr (.inr (.inl ⟨i, hi, hlt, chars_of_toInt? hi hlt⟩))
    · have hlarge : ∀ i, n.toInt? = some i → digitLimit ≤ i.natAbs :=
        fun i hi => Nat.not_lt.1 fun hlt => hsmall ⟨i, hi, hlt⟩
      exact .inr (.inr (.inr ⟨negative, c, e, rfl, hlarge, chars_of_shape hshape hlarge⟩))

/-- The characters of texts of numbers. -/
theorem all_isNumberChar_chars (n : Number) : n.chars.all isNumberChar = true := by
  rcases n.chars_cases with h | ⟨negative, h⟩ | ⟨i, -, -, h⟩ | ⟨negative, c, e, -, -, h⟩
  · rw [h]
    decide
  · rw [h]
    exact all_isNumberChar_signed (by decide)
  · rw [h]
    exact all_isNumberChar_signed (all_isNumberChar_digitsOf _)
  · rw [h]
    exact all_isNumberChar_signed (Decimal.all_isNumberChar_write _ _)

/-- A text of digits only has no sign. -/
theorem signed_of_all_isDigit {cs : List Char} (h : (signed negative cs).all isDigit = true) :
    negative = false := by
  cases negative with
  | false => rfl
  | true =>
    have hmem : '-' ∈ signed true cs := List.mem_cons_self
    exact absurd h (Decimal.not_all_isDigit hmem (by decide))

/-- A text of digits only, with a value below `2 ^ 53`, is the text of this natural. -/
theorem toInt?_of_all_isDigit (h : n.chars.all isDigit = true)
    (hlt : digitsValue n.chars < 2 ^ 53) : n.toInt? = some (digitsValue n.chars : Int) := by
  have hlimit : 2 ^ 53 ≤ digitLimit := by decide
  rcases n.chars_cases with hchars | ⟨negative, hchars⟩ | ⟨i, hi, -, hchars⟩ |
    ⟨negative, c, e, hshape, hlarge, hchars⟩
  · rw [hchars] at h
    exact absurd h (by decide)
  · rw [hchars] at h
    obtain rfl := signed_of_all_isDigit h
    exact absurd h (by decide)
  · rw [hchars] at h
    have hsign := of_decide_eq_false (signed_of_all_isDigit h)
    rw [hchars, decide_eq_false hsign, hi]
    show some i = some (digitsValue (Decimal.digitsOf i.natAbs) : Int)
    rw [digitsValue_digitsOf]
    congr 1
    omega
  · rw [hchars] at h hlt
    obtain rfl := signed_of_all_isDigit h
    have hwrite : (Decimal.write layout (Decimal.shortest layout.tie c e)).all isDigit = true := h
    obtain ⟨hexponent, hvalue⟩ := Decimal.digits_of_write rfl hwrite
    have hlt' : digitsValue (Decimal.write layout (Decimal.shortest layout.tie c e)) < 2 ^ 53 := hlt
    obtain ⟨i, hi, hsame⟩ := toInt?_of_shortest hshape hexponent
    rw [hvalue] at hlt'
    have hnatAbs := hsame hlt'
    have hlow := hlarge i hi
    omega

end Number

end ReactiveScript
