import ReactiveScript.Number.Rounding
import ReactiveScript.Proofs.Ratios

/-!
# Rounding

Every finite number has one coefficient and one exponent, and a value that has such a coefficient and
exponent rounds to the number that has them: it needs no rounding, however it came about. A natural
rounds to a natural or to infinity, and one below `2 ^ 53` to itself.
-/

namespace ReactiveScript

namespace Number

/-- The coefficients and exponents of finite numbers: 53 bits, the first of which is set unless the
exponent is the least. -/
structure Fits (coefficient : Nat) (exponent : Int) : Prop where
  lt : coefficient < 2 ^ 53
  leading : 2 ^ 52 ≤ coefficient ∨ exponent = leastExponent
  least : leastExponent ≤ exponent
  greatest : exponent ≤ 971

variable {n : Number} {negative : Bool} {bits c k : Nat} {e : Int} {r : Ratio}

/-! ## Bit patterns -/

section Packed

open Float.Model Float.Model.UnpackedFloat

/-- Bit patterns of finite numbers are kept as they are. -/
theorem toBits_ofBits {b : UInt64} (h : b.toNat / 2 ^ 52 % 2 ^ 11 ≠ 2047) :
    (Float.ofBits b).toBits = b := by
  refine UInt64.toBitVec_inj.1 ?_
  show UnpackedFloat.pack Format.binary64 (UnpackedFloat.unpack Format.binary64 b.toBitVec) = _
  rw [pack_unpack, if_neg]
  unfold isNaNBits
  rw [decide_eq_true_eq]
  rintro ⟨hexponent, -⟩
  have hfield := congrArg BitVec.toNat hexponent
  rw [unpackExponent_def] at hfield
  simp only [BitVec.extractLsb'_toNat, UInt64.toNat_toBitVec, Nat.shiftRight_eq_div_pow] at hfield
  exact h hfield

end Packed

theorem toNat_toBits_ofMagnitudeBits (negative : Bool) (h : bits < 2047 * 2 ^ 52) :
    (ofMagnitudeBits negative bits).toBits.toNat = (if negative then 2 ^ 63 else 0) + bits := by
  have hsign : signBit = 2 ^ 63 := rfl
  have hpattern : (if negative then signBit + bits else bits) =
      (if negative then 2 ^ 63 else 0) + bits := by
    cases negative with
    | false => exact (Nat.zero_add bits).symm
    | true => rfl
  have hlt : (if negative then 2 ^ 63 else 0) + bits < 2 ^ 64 := by
    split <;> omega
  have htoNat := UInt64.toNat_ofNat_of_lt' hlt
  unfold ofMagnitudeBits
  rw [hpattern, toBits_ofBits, htoNat]
  rw [htoNat]
  split <;> omega

/-- The number with the least exponent and a coefficient of 52 bits. -/
theorem shape_ofMagnitudeBits_of_lt (negative : Bool) (h : bits < 2 ^ 52) :
    (ofMagnitudeBits negative bits).shape = .finite negative bits leastExponent := by
  have hhigh : bits < 2047 * 2 ^ 52 := by omega
  have hbits := toNat_toBits_ofMagnitudeBits negative hhigh
  unfold shape
  rw [hbits]
  simp only [show leadingBit = 2 ^ 52 from rfl, show signBit = 2 ^ 63 from rfl]
  cases negative with
  | false =>
    rw [if_neg Bool.false_ne_true, if_neg (by omega), if_pos (by omega)]
    congr 1
    · exact decide_eq_false (by omega)
    · omega
  | true =>
    rw [if_pos rfl, if_neg (by omega), if_pos (by omega)]
    congr 1
    · exact decide_eq_true (by omega)
    · omega

/-- A number with a coefficient of 53 bits. -/
theorem shape_ofMagnitudeBits_of_le (negative : Bool) (hlow : 2 ^ 52 ≤ bits)
    (hhigh : bits < 2047 * 2 ^ 52) :
    (ofMagnitudeBits negative bits).shape =
      .finite negative (2 ^ 52 + bits % 2 ^ 52) ((bits / 2 ^ 52 : Nat) - 1 + leastExponent) := by
  have hbits := toNat_toBits_ofMagnitudeBits negative hhigh
  unfold shape
  rw [hbits]
  simp only [show leadingBit = 2 ^ 52 from rfl, show signBit = 2 ^ 63 from rfl]
  cases negative with
  | false =>
    rw [if_neg Bool.false_ne_true, if_neg (by omega), if_neg (by omega)]
    congr 1
    · exact decide_eq_false (by omega)
    · omega
    · congr 2
      omega
  | true =>
    rw [if_pos rfl, if_neg (by omega), if_neg (by omega)]
    congr 1
    · exact decide_eq_true (by omega)
    · omega
    · congr 2
      omega

theorem shape_infinity (negative : Bool) : (infinity negative).shape = .infinite negative := by
  cases negative <;> decide

theorem shape_zero (negative : Bool) : (zero negative).shape = .finite negative 0 leastExponent :=
  shape_ofMagnitudeBits_of_lt negative (by omega)

/-- A number is found by its sign bit and the other bits. -/
theorem ofMagnitudeBits_of_toBits {n : Number} {negative : Bool} {bits : Nat}
    (h : n.toBits.toNat = (if negative then 2 ^ 63 else 0) + bits) :
    n = ofMagnitudeBits negative bits := by
  have hpattern : (if negative then signBit + bits else bits) = n.toBits.toNat := by
    rw [h]
    cases negative with
    | false => rw [if_neg Bool.false_ne_true, if_neg Bool.false_ne_true, Nat.zero_add]
    | true => rfl
  unfold ofMagnitudeBits
  rw [hpattern, UInt64.ofNat_toNat, Float.ofBits_toBits]

/-- A bit pattern that is made of a coefficient and an exponent is that of a finite number. -/
theorem Fits.bits_lt (h : Fits c e) : (e - leastExponent).toNat * 2 ^ 52 + c < 2047 * 2 ^ 52 := by
  have hlt := h.lt
  have hgreatest := h.greatest
  unfold leastExponent
  omega

/-- The coefficient and the exponent of a finite number, and how they make up its bit pattern. -/
theorem of_shape (h : n.shape = .finite negative c e) :
    Fits c e ∧ n = ofMagnitudeBits negative ((e - leastExponent).toNat * 2 ^ 52 + c) := by
  have hlt : n.toBits.toNat < 2 ^ 64 := n.toBits.toNat_lt
  have hsigned : ∀ {b : Prop} [Decidable b] (bits : Nat), (b ↔ 2 ^ 63 ≤ n.toBits.toNat) →
      n.toBits.toNat % 2 ^ 63 = bits → n = ofMagnitudeBits (decide b) bits := by
    intro b _ bits hb hbits
    refine ofMagnitudeBits_of_toBits ?_
    by_cases hb' : b
    · have hle := hb.1 hb'
      rw [decide_eq_true hb', if_pos rfl]
      omega
    · have hlt := mt hb.2 hb'
      rw [decide_eq_false hb', if_neg Bool.false_ne_true]
      omega
  unfold shape at h
  simp only [show leadingBit = 2 ^ 52 from rfl, show signBit = 2 ^ 63 from rfl] at h
  split at h
  · split at h <;> cases h
  · split at h
    · obtain ⟨rfl, rfl, rfl⟩ := Shape.finite.inj h
      refine ⟨⟨by omega, .inr rfl, Int.le_refl _, by decide⟩, hsigned _ Iff.rfl ?_⟩
      omega
    · obtain ⟨rfl, rfl, rfl⟩ := Shape.finite.inj h
      unfold leastExponent
      exact ⟨⟨by omega, .inl (by omega), by unfold leastExponent; omega, by omega⟩,
        hsigned _ Iff.rfl (by omega)⟩

theorem fits_of_shape (h : n.shape = .finite negative c e) : Fits c e := (of_shape h).1

theorem eq_of_shape (h : n.shape = .finite negative c e) :
    n = ofMagnitudeBits negative ((e - leastExponent).toNat * 2 ^ 52 + c) := (of_shape h).2

/-- A coefficient and an exponent that fit are those of a number. -/
theorem shape_ofMagnitudeBits (h : Fits c e) (negative : Bool) :
    (ofMagnitudeBits negative ((e - leastExponent).toNat * 2 ^ 52 + c)).shape =
      .finite negative c e := by
  obtain ⟨hlt, hleading, hleast, hgreatest⟩ := h
  unfold leastExponent at hleast
  by_cases hsmall : c < 2 ^ 52
  · obtain rfl := hleading.resolve_left (Nat.not_le.2 hsmall)
    rw [Int.sub_self, Int.toNat_zero, Nat.zero_mul, Nat.zero_add,
      shape_ofMagnitudeBits_of_lt negative hsmall]
  · have hfield : (e - leastExponent).toNat ≤ 2045 := by
      unfold leastExponent
      omega
    rw [shape_ofMagnitudeBits_of_le negative (by omega) (by omega)]
    congr 1
    · omega
    · unfold leastExponent
      omega

/-! ## The exponent -/

/-- With the exponent of a value, its coefficient is below `2 ^ 53`, and it is `2 ^ 52` at least
unless the exponent is the least. -/
theorem exponentOf_spec (hnum : r.num ≠ 0) (hden : 0 < r.den) :
    leastExponent ≤ exponentOf r ∧ r.toRat < 2 ^ 53 * (2 : ℚ) ^ exponentOf r ∧
      (exponentOf r = leastExponent ∨ 2 ^ 52 * (2 : ℚ) ^ exponentOf r ≤ r.toRat) := by
  have hlow := Ratio.zpow_log2_sub_one_lt hnum hden
  have hhigh := Ratio.toRat_lt_zpow_log2_add_one hden
  have hleading : 2 * leadingBit = 2 ^ 53 := rfl
  unfold exponentOf
  dsimp only
  generalize hguess : max (r.log2 - 53) leastExponent = guess
  have hfloor : (r.scale 2 (-guess)).floor < 2 * leadingBit ↔
      r.toRat < 2 ^ 53 * (2 : ℚ) ^ guess := by
    have hpos : (0 : ℚ) < 2 ^ guess := zpow_pos two_pos guess
    have hnonneg : 0 ≤ r.toRat / 2 ^ guess := div_nonneg r.toRat_nonneg hpos.le
    rw [Ratio.floor_eq, Ratio.toRat_scale, hleading, Nat.cast_ofNat, zpow_neg, ← div_eq_mul_inv,
      Nat.floor_lt hnonneg, div_lt_iff₀ hpos, Nat.cast_pow, Nat.cast_ofNat]
  by_cases hfits : r.toRat < 2 ^ 53 * (2 : ℚ) ^ guess
  · rw [if_pos (hfloor.2 hfits)]
    refine ⟨by omega, hfits, ?_⟩
    by_cases hleast : guess = leastExponent
    · exact .inl hleast
    · have hexp : r.log2 - 1 = ((52 : Nat) : Int) + guess := by omega
      rw [hexp, zpow_add₀ two_ne_zero, zpow_natCast] at hlow
      exact .inr hlow.le
  · rw [if_neg (mt hfloor.1 hfits)]
    have hnext : (2 : ℚ) ^ (guess + 1) = 2 ^ guess * 2 := zpow_add_one₀ two_ne_zero guess
    refine ⟨by omega, ?_, .inr ?_⟩
    · have hle : r.log2 + 1 ≤ ((53 : Nat) : Int) + (guess + 1) := by omega
      have hpow : (2 : ℚ) ^ (((53 : Nat) : Int) + (guess + 1)) = 2 ^ 53 * 2 ^ (guess + 1) := by
        rw [zpow_add₀ two_ne_zero, zpow_natCast]
      rw [← hpow]
      exact hhigh.trans_le (zpow_le_zpow_right₀ one_le_two hle)
    · rw [hnext]
      linarith only [hfits]

/-- The exponent of a value that has a coefficient and an exponent that fit. -/
theorem exponentOf_of_fits (hfits : Fits c e) (hc : c ≠ 0) (hden : 0 < r.den)
    (hr : r.toRat = c * (2 : ℚ) ^ e) : exponentOf r = e := by
  have hpos : ∀ e : Int, (0 : ℚ) < 2 ^ e := fun e => zpow_pos two_pos e
  have hnum : r.num ≠ 0 := by
    rw [Ne, Ratio.num_eq_zero_iff hden, hr]
    exact mul_ne_zero (Nat.cast_ne_zero.2 hc) (hpos e).ne'
  obtain ⟨hleast, hbelow, habove⟩ := exponentOf_spec hnum hden
  have hlt : (c : ℚ) < 2 ^ 53 := by exact_mod_cast hfits.lt
  -- Of two exponents, a step up in one takes up a bit in the coefficient of the other.
  have hstep : ∀ {e e' : Int}, e < e' → 2 * (2 : ℚ) ^ e ≤ 2 ^ e' := by
    intro e e' hlt
    have hpow : (2 : ℚ) ^ (e + 1) ≤ 2 ^ e' := zpow_le_zpow_right₀ one_le_two hlt
    rw [zpow_add_one₀ two_ne_zero] at hpow
    linarith only [hpow]
  rcases Int.lt_trichotomy (exponentOf r) e with hless | heq | hmore
  · have hlow : (2 : ℚ) ^ 52 ≤ c := by
      have hleading := hfits.leading.resolve_right (by omega)
      exact_mod_cast hleading
    have hscaled : (2 : ℚ) ^ 52 * 2 ^ e ≤ c * 2 ^ e :=
      mul_le_mul_of_nonneg_right hlow (hpos e).le
    have hpow := hstep hless
    rw [hr] at hbelow
    linarith only [hscaled, hpow, hbelow]
  · exact heq
  · have hfull := habove.resolve_left (by have := hfits.least; omega)
    have hscaled : (c : ℚ) * 2 ^ e < 2 ^ 53 * 2 ^ e := mul_lt_mul_of_pos_right hlt (hpos e)
    have hpow := hstep hmore
    rw [hr] at hfull
    linarith only [hscaled, hpow, hfull]

/-- The bit pattern that a value other than zero is rounded to. -/
theorem ofRatio_eq (negative : Bool) (hnum : r.num ≠ 0) :
    ofRatio negative r = ofMagnitudeBits negative
      (min ((exponentOf r - leastExponent).toNat * 2 ^ 52 +
        (r.scale 2 (-exponentOf r)).nearestEven) (2047 * 2 ^ 52)) := by
  rw [ofRatio, if_neg hnum]
  rfl

/-! ## Values that need no rounding -/

/-- A value with a coefficient and an exponent that fit is rounded to the number that has them. -/
theorem shape_ofRatio (hfits : Fits c e) (negative : Bool) (hden : 0 < r.den)
    (hr : r.toRat = c * (2 : ℚ) ^ e) : (ofRatio negative r).shape = .finite negative c e := by
  by_cases hc : c = 0
  · subst hc
    have hnum : r.num = 0 := by
      rw [Ratio.num_eq_zero_iff hden, hr, Nat.cast_zero, zero_mul]
    have hleast : e = leastExponent := hfits.leading.resolve_left (by omega)
    rw [ofRatio, if_pos hnum, hleast]
    exact shape_zero negative
  · have hpos : (2 : ℚ) ^ e ≠ 0 := (zpow_pos two_pos e).ne'
    have hnum : r.num ≠ 0 := by
      rw [Ne, Ratio.num_eq_zero_iff hden, hr]
      exact mul_ne_zero (Nat.cast_ne_zero.2 hc) hpos
    have hcoefficient : (r.scale 2 (-e)).nearestEven = c := by
      refine Ratio.nearestEven_of_toRat (Ratio.den_scale_pos hden Nat.two_pos _) ?_
      rw [Ratio.toRat_scale, hr, Nat.cast_ofNat, zpow_neg, mul_inv_cancel_right₀ hpos]
    rw [ofRatio_eq negative hnum, exponentOf_of_fits hfits hc hden hr, hcoefficient,
      Nat.min_eq_left hfits.bits_lt.le]
    exact shape_ofMagnitudeBits hfits negative

/-- The exact value of a finite number is rounded to its magnitude. -/
theorem shape_ofRatio_ofPower (h : n.shape = .finite negative c e) (negative' : Bool) :
    (ofRatio negative' (.ofPower c 2 e)).shape = .finite negative' c e :=
  shape_ofRatio (fits_of_shape h) negative' (Ratio.den_ofPower_pos Nat.two_pos c e)
    (Ratio.toRat_ofPower_two c e)

/-! ## Naturals -/

/-- The magnitude of a number that is an integer. -/
theorem toInt?_eq_some {n : Number} {i : Int} (h : n.toInt? = some i) :
    ∃ negative coefficient exponent, n.shape = .finite negative coefficient exponent ∧
      (Ratio.ofPower coefficient 2 exponent).isWhole = true ∧
      i = if negative then -((Ratio.ofPower coefficient 2 exponent).floor : Int)
        else ((Ratio.ofPower coefficient 2 exponent).floor : Int) := by
  unfold toInt? truncate? at h
  cases hshape : n.shape with
  | finite negative coefficient exponent =>
    rw [hshape] at h
    dsimp only at h
    split at h
    · rename_i hwhole
      exact ⟨negative, coefficient, exponent, rfl, hwhole, (Option.some.inj h).symm⟩
    · cases h
  | nan | infinite =>
    rw [hshape] at h
    cases h

/-- What a natural value means for the integer of a number. -/
theorem toInt?_of_shape (h : n.shape = .finite negative c e) (hk : (c : ℚ) * 2 ^ e = k) :
    n.toInt? = some (if negative then -(k : Int) else k) := by
  have hrat : (Ratio.ofPower c 2 e).toRat = k := (Ratio.toRat_ofPower_two c e).trans hk
  have hwhole : (Ratio.ofPower c 2 e).isWhole = true :=
    (Ratio.isWhole_iff (Ratio.den_ofPower_pos Nat.two_pos c e)).2 ⟨k, hrat⟩
  unfold toInt? truncate?
  rw [h]
  dsimp only
  rw [if_pos hwhole, Ratio.floor_of_toRat hrat]

theorem toInt?_zero (negative : Bool) : (zero negative).toInt? = some 0 := by
  have hvalue : ((0 : Nat) : ℚ) * 2 ^ leastExponent = (0 : Nat) := by
    rw [Nat.cast_zero, zero_mul]
  rw [toInt?_of_shape (shape_zero negative) hvalue]
  cases negative <;> rfl

/-- The integer of a number has the magnitude that its coefficient and exponent denote. -/
theorem natAbs_of_toInt? {i : Int} (h : n.shape = .finite negative c e) (hi : n.toInt? = some i) :
    (c : ℚ) * 2 ^ e = i.natAbs := by
  obtain ⟨negative', c', e', hshape, hwhole, hvalue⟩ := toInt?_eq_some hi
  obtain ⟨rfl, rfl, rfl⟩ := Shape.finite.inj (h.symm.trans hshape)
  obtain ⟨k, hk⟩ := (Ratio.isWhole_iff (Ratio.den_ofPower_pos Nat.two_pos c e)).1 hwhole
  rw [Ratio.floor_of_toRat hk] at hvalue
  rw [Ratio.toRat_ofPower_two] at hk
  have hnatAbs : i.natAbs = k := by
    rw [hvalue]
    split <;> omega
  rw [hk, hnatAbs]

/-- A natural below `2 ^ 53` has a coefficient and an exponent that fit. -/
theorem exists_fits (hk : k < 2 ^ 53) : ∃ c e, Fits c e ∧ (k : ℚ) = c * (2 : ℚ) ^ e := by
  by_cases hzero : k = 0
  · exact ⟨0, leastExponent, ⟨by omega, .inr rfl, Int.le_refl _, by decide⟩, by simp [hzero]⟩
  · have hlog : k.log2 ≤ 52 := Nat.le_of_lt_succ ((Nat.log2_lt hzero).2 hk)
    have hlow := Nat.log2_self_le hzero
    have hhigh : k < 2 ^ (k.log2 + 1) := Nat.lt_log2_self
    have hpow : ∀ i : Nat, (2 : Nat) ^ (k.log2 + i) * 2 ^ (52 - k.log2) = 2 ^ (52 + i) := by
      intro i
      rw [← Nat.pow_add]
      congr 1
      omega
    refine ⟨k * 2 ^ (52 - k.log2), -((52 - k.log2 : Nat) : Int), ⟨?_, .inl ?_, ?_, ?_⟩, ?_⟩
    · rw [← hpow 1]
      exact Nat.mul_lt_mul_of_pos_right hhigh (Nat.two_pow_pos _)
    · rw [← hpow 0]
      exact Nat.mul_le_mul_right _ hlow
    · unfold leastExponent
      omega
    · omega
    · rw [zpow_neg, zpow_natCast, Nat.cast_mul, Nat.cast_pow, Nat.cast_ofNat,
        mul_inv_cancel_right₀ (pow_ne_zero _ two_ne_zero)]

/-- A natural below `2 ^ 53` is a number. -/
theorem toInt?_ofRatio_of_lt (negative : Bool) (hden : 0 < r.den) (hr : r.toRat = k)
    (hk : k < 2 ^ 53) :
    (ofRatio negative r).toInt? = some (if negative then -(k : Int) else k) := by
  obtain ⟨c, e, hfits, hvalue⟩ := exists_fits hk
  exact toInt?_of_shape (shape_ofRatio hfits negative hden (hr.trans hvalue)) hvalue.symm

/-- A natural from `2 ^ 53` on is rounded to a number whose exponent is not negative. -/
theorem shape_ofRatio_of_le (negative : Bool) (hden : 0 < r.den) (hr : r.toRat = k)
    (hk : 2 ^ 53 ≤ k) :
    (ofRatio negative r).shape = .infinite negative ∨
      ∃ c e, 0 ≤ e ∧ (ofRatio negative r).shape = .finite negative c e := by
  have hkRat : (2 : ℚ) ^ 53 ≤ r.toRat := by
    rw [hr]
    exact_mod_cast hk
  have hnum : r.num ≠ 0 := by
    rw [Ne, Ratio.num_eq_zero_iff hden]
    intro hzero
    rw [hzero] at hkRat
    norm_num at hkRat
  obtain ⟨-, hbelow, -⟩ := exponentOf_spec hnum hden
  have hexp : 0 < exponentOf r := by
    by_contra hneg
    have hpow : (2 : ℚ) ^ exponentOf r ≤ 2 ^ (0 : Int) :=
      zpow_le_zpow_right₀ one_le_two (by omega)
    rw [zpow_zero] at hpow
    linarith only [hkRat, hbelow, hpow]
  generalize hbits : (exponentOf r - leastExponent).toNat * 2 ^ 52 +
    (r.scale 2 (-exponentOf r)).nearestEven = bits
  have hlow : 1075 * 2 ^ 52 ≤ bits := by
    unfold leastExponent at hbits
    omega
  rw [ofRatio_eq negative hnum, hbits]
  by_cases hhigh : bits < 2047 * 2 ^ 52
  · rw [Nat.min_eq_left hhigh.le]
    refine .inr ⟨_, _, ?_, shape_ofMagnitudeBits_of_le negative (by omega) hhigh⟩
    unfold leastExponent
    omega
  · rw [Nat.min_eq_right (by omega)]
    exact .inl (shape_infinity negative)

/-- A natural is rounded to infinity or to a natural, and to itself below `2 ^ 53`. -/
theorem ofRatio_natCast (hden : 0 < r.den) (hr : r.toRat = k) (negative : Bool) :
    (ofRatio negative r).shape = .infinite negative ∨
      ∃ m : Nat, (ofRatio negative r).toInt? = some (if negative then -(m : Int) else m) ∧
        (k < 2 ^ 53 → m = k) := by
  by_cases hk : k < 2 ^ 53
  · exact .inr ⟨k, toInt?_ofRatio_of_lt negative hden hr hk, fun _ => rfl⟩
  · rcases shape_ofRatio_of_le negative hden hr (by omega) with hinfinite | ⟨c, e, he, hshape⟩
    · exact .inl hinfinite
    · obtain ⟨n, rfl⟩ := Int.eq_ofNat_of_zero_le he
      have hvalue : (c : ℚ) * 2 ^ (n : Int) = (c * 2 ^ n : Nat) := by
        rw [zpow_natCast, Nat.cast_mul, Nat.cast_pow, Nat.cast_ofNat]
      exact .inr ⟨_, toInt?_of_shape hshape hvalue, fun hlt => absurd hlt hk⟩

theorem toInt?_ofNat (hk : k < 2 ^ 53) : (ofNat k).toInt? = some (k : Int) := by
  have h := toInt?_ofRatio_of_lt false Nat.one_pos (Ratio.toRat_ofNat k) hk
  rw [if_neg Bool.false_ne_true] at h
  exact h

end Number

end ReactiveScript
