import ReactiveScript.Number.Word
import ReactiveScript.Proofs.Integers

/-!
# Exact operations on numbers

The comparison with zero, the sum and the cut to 32 bits, in terms of the sign, the coefficient and
the exponent of a number. A sum whose exact value is a number is this number: nothing is rounded.
-/

namespace ReactiveScript

namespace Number

variable {n a b : Number} {negative : Bool} {c d k m : Nat} {e f : Int}

/-! ## Values -/

/-- A magnitude with a sign. -/
def withSign (negative : Bool) (q : ℚ) : ℚ := if negative then -q else q

/-- The rational number that a finite number denotes. -/
def value? (n : Number) : Option ℚ :=
  match n.shape with
  | .finite negative coefficient exponent =>
    some (withSign negative (coefficient * (2 : ℚ) ^ exponent))
  | _ => none

theorem value?_of_shape (h : n.shape = .finite negative c e) :
    n.value? = some (withSign negative (c * (2 : ℚ) ^ e)) := by
  rw [value?, h]

/-- A number that denotes a rational is finite. -/
theorem shape_of_value? {q : ℚ} (h : n.value? = some q) :
    ∃ negative c e, n.shape = .finite negative c e ∧ q = withSign negative (c * (2 : ℚ) ^ e) := by
  unfold value? at h
  cases hshape : n.shape with
  | finite negative c e =>
    rw [hshape] at h
    exact ⟨negative, c, e, rfl, (Option.some.inj h).symm⟩
  | nan | infinite =>
    rw [hshape] at h
    cases h

theorem withSign_natCast (negative : Bool) (k : Nat) :
    withSign negative k = ((if negative then -(k : Int) else k : Int) : ℚ) := by
  cases negative with
  | false => exact (Int.cast_natCast k).symm
  | true =>
    rw [if_pos rfl, Int.cast_neg, Int.cast_natCast]
    rfl

/-! ## Unpacked numbers -/

open Float.Model Float.Model.UnpackedFloat

/-- The sign of a number. -/
def signOf (negative : Bool) : Sign := if negative then .negative else .positive

theorem beq_signOf (negative : Bool) : (signOf negative == .negative) = negative := by
  cases negative <;> rfl

/-- The parts of a bit pattern that is made of a coefficient and an exponent that fit. -/
theorem toBitVec_of_fits (hfits : Fits c e) (negative : Bool) :
    (ofMagnitudeBits negative ((e - leastExponent).toNat * 2 ^ 52 + c)).toBits.toBitVec =
      packComponents .binary64 (signOf negative)
        (.ofNat 11 (((e - leastExponent).toNat * 2 ^ 52 + c) / 2 ^ 52)) (.ofNat 52 c) := by
  have hparts := toBitVec_ofMagnitudeBits (signOf negative) hfits.bits_lt
  rw [beq_signOf] at hparts
  rw [hparts]
  congr 1
  refine BitVec.eq_of_toNat_eq ?_
  rw [BitVec.toNat_ofNat, BitVec.toNat_ofNat]
  omega

theorem toNat_one_append (m : BitVec 52) : (1#1 ++ m).toNat = 2 ^ 52 + m.toNat := by
  rw [BitVec.toNat_append, ← Nat.shiftLeft_add_eq_or_of_lt m.isLt, Nat.shiftLeft_eq]
  rfl

/-- A finite number other than zero is unpacked into its sign, its coefficient and its exponent. -/
theorem unpack_of_shape (h : n.shape = .finite negative c e) (hc : 0 < c) :
    n.toModel.unpack = .finite (signOf negative) c e hc := by
  obtain ⟨hfits, hn⟩ := of_shape h
  have hparts := toBitVec_of_fits hfits negative
  rw [← hn] at hparts
  obtain ⟨hlt, hleading, hleast, hgreatest⟩ := hfits
  unfold leastExponent at hparts hleading hleast
  show UnpackedFloat.unpack Format.binary64 n.toBits.toBitVec = _
  rw [hparts]
  unfold UnpackedFloat.unpack
  simp only [unpackMantissa_packComponents, unpackExponent_packComponents,
    unpackSign_packComponents, Sign.ofBitVec_toBitVec]
  generalize hfield : ((e - -1074).toNat * 2 ^ 52 + c) / 2 ^ 52 = field
  have hfieldLt : field < 2047 := by omega
  have hexponent : (BitVec.ofNat 11 field).toNat = field := by
    rw [BitVec.toNat_ofNat]
    omega
  have hfinite : BitVec.ofNat 11 field ≠ -1#11 := by
    intro hall
    have hnat := congrArg BitVec.toNat hall
    rw [hexponent] at hnat
    exact absurd (hnat.trans (by decide : (-1#11).toNat = 2047)) hfieldLt.ne
  have hzero : BitVec.ofNat 11 field = 0#11 ↔ field = 0 := by
    rw [← BitVec.toNat_inj, hexponent]
    rfl
  have hbias : (Format.binary64.exponentBias : Int) = 1023 := rfl
  rw [if_neg hfinite]
  by_cases hsmall : c < 2 ^ 52
  · have hmantissa : (BitVec.ofNat 52 c).toNat = c := by
      rw [BitVec.toNat_ofNat, Nat.mod_eq_of_lt hsmall]
    have hnonzero : BitVec.ofNat 52 c ≠ 0#52 := by
      intro hzero
      have hnat := congrArg BitVec.toNat hzero
      rw [hmantissa] at hnat
      exact absurd hnat hc.ne'
    have he : (field : Int) - (1023 + 52) + 1 = e := by omega
    rw [if_pos (hzero.2 (by omega)), dif_neg hnonzero, finite.injEq, hexponent, hbias]
    exact ⟨rfl, hmantissa, he⟩
  · have hmantissa : (1#1 ++ BitVec.ofNat 52 c).toNat = c := by
      rw [toNat_one_append, BitVec.toNat_ofNat]
      omega
    have he : (field : Int) - (1023 + 52) = e := by omega
    rw [if_neg (mt hzero.1 (by omega)), finite.injEq, hexponent, hbias]
    exact ⟨rfl, hmantissa, he⟩

/-- A zero is unpacked into its sign. -/
theorem unpack_of_shape_zero (h : n.shape = .finite negative 0 e) :
    n.toModel.unpack = .zero (signOf negative) := by
  obtain ⟨hfits, hn⟩ := of_shape h
  have hleast : e = leastExponent := hfits.leading.resolve_left (by omega)
  have hparts := toBitVec_of_fits hfits negative
  rw [← hn, hleast, Int.sub_self] at hparts
  show UnpackedFloat.unpack Format.binary64 n.toBits.toBitVec = _
  rw [hparts]
  cases negative <;> rfl

/-- Packing the parts of a number that fit gives the number with these parts. -/
theorem shape_pack (hfits : Fits c e) (hc : 0 < c) (negative : Bool) :
    Number.shape ⟨Float.Model.pack (.finite (signOf negative) c e hc)⟩ =
      .finite negative c e := by
  have hshape := shape_ofMagnitudeBits hfits negative
  generalize ofMagnitudeBits negative ((e - leastExponent).toNat * 2 ^ 52 + c) = n at hshape
  have hpack : Float.Model.pack n.toModel.unpack = n.toModel := by
    have hbits : (Float.Model.pack n.toModel.unpack).toBits = n.toModel.toBits :=
      UInt64.toBitVec_inj.1 (pack_unpack_of_valid n.toModel.valid)
    generalize Float.Model.pack n.toModel.unpack = packed at hbits ⊢
    cases packed
    cases hmodel : n.toModel
    rw [hmodel] at hbits
    cases hbits
    rfl
  rw [← unpack_of_shape hshape hc, hpack]
  exact hshape

/-! ## Rounding what needs no rounding -/

theorem log2_mul_two_pow (hc : c ≠ 0) (k : Nat) : (c * 2 ^ k).log2 = c.log2 + k := by
  have hlow := Nat.mul_le_mul_right (2 ^ k) (Nat.log2_self_le hc)
  have hhigh := Nat.mul_lt_mul_of_pos_right (Nat.lt_log2_self : c < 2 ^ (c.log2 + 1))
    (Nat.two_pow_pos k)
  rw [← Nat.pow_add] at hlow hhigh
  have hexp : c.log2 + 1 + k = c.log2 + k + 1 := by omega
  rw [hexp] at hhigh
  exact (Nat.log2_eq_iff (Nat.mul_pos (Nat.pos_of_ne_zero hc) (Nat.two_pow_pos k)).ne').2
    ⟨hlow, hhigh⟩

/-- A coefficient that fits stays at its exponent, with or without zeros at its end. -/
theorem targetExponent_of_fits (hfits : Fits c e) (hc : c ≠ 0) (k : Nat) :
    Format.binary64.targetExponent (totalExponent (c * 2 ^ k) (e - k)) = e := by
  obtain ⟨hlt, hleading, hleast, -⟩ := hfits
  have hhigh : c.log2 < 53 := (Nat.log2_lt hc).2 hlt
  have hlow : 2 ^ 52 ≤ c → 52 ≤ c.log2 := fun hle => (Nat.le_log2 hc).2 hle
  unfold leastExponent at hleading hleast
  simp only [Format.targetExponent, totalExponent, log2_mul_two_pow hc, Format.mantissaBits,
    Format.minExponent]
  omega

/-- Zeros at the end are shifted out without a remainder. -/
theorem shiftRight_mul_two_pow (c k : Nat) :
    ExtendedMantissa.ofMantissaAndAccuracy (c * 2 ^ k) .exact >>> k =
      ExtendedMantissa.ofMantissaAndAccuracy c .exact := by
  induction k generalizing c with
  | zero =>
    rw [Nat.pow_zero, Nat.mul_one]
    rfl
  | succ k ih =>
    have hdouble : c * 2 ^ (k + 1) = c * 2 * 2 ^ k := by
      rw [Nat.pow_succ, Nat.mul_right_comm, Nat.mul_assoc]
    show (ExtendedMantissa.ofMantissaAndAccuracy (c * 2 ^ (k + 1)) .exact >>> k).shiftRightOne = _
    rw [hdouble, ih]
    simp [ExtendedMantissa.shiftRightOne, ExtendedMantissa.ofMantissaAndAccuracy]

theorem roundWithAccuracy_of_fits (hfits : Fits c e) (hc : 0 < c) (s : Sign) (k : Nat) :
    roundWithAccuracy Format.binary64 s (c * 2 ^ k) (e - k) .exact = .finite s c e hc := by
  have hshift : shiftToTargetExponent Format.binary64 (c * 2 ^ k) (e - k) .exact =
      (ExtendedMantissa.ofMantissaAndAccuracy c .exact, e) := by
    have hamount : (e - (e - k)).toNat = k := by omega
    have hexponent : e - k + k = e := by omega
    rw [shiftToTargetExponent, targetExponent_of_fits hfits hc.ne', shiftToExponent, hamount,
      shiftRight_mul_two_pow, hexponent]
  have hstay : shiftToTargetExponent Format.binary64 c e .exact =
      (ExtendedMantissa.ofMantissaAndAccuracy c .exact, e) := by
    have htarget := targetExponent_of_fits hfits hc.ne' 0
    rw [Nat.pow_zero, Nat.mul_one, Nat.cast_zero, Int.sub_zero] at htarget
    rw [shiftToTargetExponent, htarget, shiftToExponent, Int.sub_self, Int.toNat_zero,
      Nat.cast_zero, Int.add_zero]
    rfl
  unfold roundWithAccuracy
  rw [hshift]
  show (if h : (shiftToTargetExponent Format.binary64 c e .exact).1.mantissa = 0 then
      UnpackedFloat.zero s
    else .finite s (shiftToTargetExponent Format.binary64 c e .exact).1.mantissa
      (shiftToTargetExponent Format.binary64 c e .exact).2 (Nat.pos_of_ne_zero h)) = _
  simp only [hstay]
  exact dif_neg hc.ne'

/-- Two ways to write a value by a coefficient and an exponent of two, brought to one exponent. -/
theorem mul_two_pow_eq (h : (m : ℚ) * 2 ^ f = c * (2 : ℚ) ^ e) :
    m * 2 ^ (f - e).toNat = c * 2 ^ (e - f).toNat := by
  have hpos : (2 : ℚ) ^ min e f ≠ 0 := (zpow_pos two_pos _).ne'
  have hscaled : ∀ (i : Nat) (g g' : Int), g = min e f + g'.toNat →
      (i : ℚ) * 2 ^ g = (i * 2 ^ g'.toNat : Nat) * 2 ^ min e f := by
    intro i g g' hg
    rw [hg, zpow_add₀ two_ne_zero, zpow_natCast, Nat.cast_mul, Nat.cast_pow, Nat.cast_ofNat]
    ring
  rw [hscaled m f (f - e) (by omega), hscaled c e (e - f) (by omega)] at h
  exact_mod_cast mul_right_cancel₀ hpos h

/-- A value that has a coefficient and an exponent that fit is rounded to them, however it is
written. -/
theorem round_of_fits (hfits : Fits c e) (hc : 0 < c) (s : Sign)
    (h : (m : ℚ) * 2 ^ f = c * (2 : ℚ) ^ e) :
    UnpackedFloat.round Format.binary64 s m f = .finite s c e hc := by
  have hsame := mul_two_pow_eq h
  have hm : m ≠ 0 := by
    rintro rfl
    rw [Nat.zero_mul] at hsame
    exact absurd hsame.symm (Nat.mul_pos hc (Nat.two_pow_pos _)).ne'
  have hlog : m.log2 + (f - e).toNat = c.log2 + (e - f).toNat := by
    rw [← log2_mul_two_pow hm, ← log2_mul_two_pow hc.ne', hsame]
  have htarget : Format.binary64.targetExponent (totalExponent m f) = e := by
    have htarget := targetExponent_of_fits hfits hc.ne' 0
    rw [Nat.pow_zero, Nat.mul_one, Nat.cast_zero, Int.sub_zero] at htarget
    have htotal : totalExponent m f = totalExponent c e := by
      unfold totalExponent
      omega
    rw [htotal, htarget]
  have hexponent : f - ((f - e).toNat : Int) = e - (e - f).toNat := by omega
  rw [UnpackedFloat.round, htarget, decreaseExponent]
  dsimp only
  rw [Nat.shiftLeft_eq, hsame, hexponent]
  exact roundWithAccuracy_of_fits hfits hc s _

/-! ## Operations -/

theorem apply_signOf (negative : Bool) (i : Nat) :
    (((signOf negative).apply i : Int) : ℚ) = withSign negative i := by
  rw [withSign_natCast]
  cases negative <;> rfl

theorem withSign_mul (negative : Bool) (p q : ℚ) :
    withSign negative p * q = withSign negative (p * q) := by
  cases negative with
  | false => rfl
  | true => exact neg_mul p q

/-- A signed value that has a coefficient and an exponent that fit is rounded to them. -/
theorem normalize_of_fits (hfits : Fits c e) (hc : 0 < c) {i : Int}
    (h : (i : ℚ) * 2 ^ f = withSign negative (c * (2 : ℚ) ^ e)) :
    UnpackedFloat.normalize Format.binary64 i f .positive =
      .finite (signOf negative) c e hc := by
  have hpow : (0 : ℚ) < 2 ^ f := zpow_pos two_pos f
  have hvalue : (0 : ℚ) < c * 2 ^ e := mul_pos (Nat.cast_pos.2 hc) (zpow_pos two_pos e)
  unfold UnpackedFloat.normalize
  cases negative with
  | false =>
    have hpos : 0 < i := by
      have hmul : (0 : ℚ) < i * 2 ^ f := by
        rw [h]
        exact hvalue
      exact_mod_cast pos_of_mul_pos_left hmul hpow.le
    have hnat : (i.toNat : ℚ) = i := by exact_mod_cast Int.toNat_of_nonneg hpos.le
    rw [Int.compare_eq_gt.2 hpos]
    exact round_of_fits hfits hc _ (by rw [hnat]; exact h)
  | true =>
    have hneg : (-i : ℚ) * 2 ^ f = c * 2 ^ e := by
      rw [neg_mul, h]
      exact neg_neg _
    have hpos : 0 < -i := by
      have hmul : (0 : ℚ) < (-i : Int) * 2 ^ f := by
        rw [Int.cast_neg, hneg]
        exact hvalue
      exact_mod_cast pos_of_mul_pos_left hmul hpow.le
    have hnat : ((-i).toNat : ℚ) = -i := by exact_mod_cast Int.toNat_of_nonneg hpos.le
    rw [Int.compare_eq_lt.2 (Int.neg_pos.1 hpos)]
    exact round_of_fits hfits hc _ (by rw [hnat]; exact hneg)

/-- A sum whose exact value is a number other than zero is this number. -/
theorem shape_add {negA negB : Bool} (ha : a.shape = .finite negA m e) (hm : 0 < m)
    (hb : b.shape = .finite negB d f) (hd : 0 < d) {g : Int} (hfits : Fits c g) (hc : 0 < c)
    (hsum : withSign negA (m * (2 : ℚ) ^ e) + withSign negB (d * (2 : ℚ) ^ f) =
      withSign negative (c * (2 : ℚ) ^ g)) :
    (a + b).shape = .finite negative c g := by
  have hsame : (a + b).shape =
      Number.shape ⟨Float.Model.pack (UnpackedFloat.add Format.binary64 a.toModel.unpack
        b.toModel.unpack)⟩ := rfl
  have hshifted : ∀ (neg : Bool) (i : Nat) {g : Int}, min e f ≤ g →
      (((signOf neg).apply (i <<< (g - min e f).toNat : Nat) : Int) : ℚ) * 2 ^ min e f =
        withSign neg (i * (2 : ℚ) ^ g) := by
    intro neg i g hg
    have hexp : g = ((g - min e f).toNat : Int) + min e f := by omega
    rw [apply_signOf, withSign_mul, Nat.shiftLeft_eq, Nat.cast_mul, Nat.cast_pow, Nat.cast_ofNat,
      mul_assoc, ← zpow_natCast, ← zpow_add₀ two_ne_zero, ← hexp]
  rw [hsame, unpack_of_shape ha hm, unpack_of_shape hb hd, ← shape_pack hfits hc negative]
  congr 3
  unfold UnpackedFloat.add decreaseExponent
  dsimp only
  refine normalize_of_fits hfits hc ?_
  rw [Int.cast_add, add_mul, hshifted negA m (min_le_left e f), hshifted negB d (min_le_right e f),
    hsum]

/-- A number is below zero if it has the sign and is no zero. -/
theorem lt_zero_iff (h : n.shape = .finite negative c e) : n < 0 ↔ negative = true ∧ 0 < c := by
  have hzero : Float.Model.unpack (0 : Float).toModel = .zero .positive := rfl
  have hlt : n < 0 ↔ (n.toModel.unpack.compare (.zero .positive) == some .lt) = true := by
    rw [← hzero]
    show Float.lt n 0 = true ↔ _
    rw [Float.lt, decide_eq_true_iff]
    exact Iff.rfl
  rw [hlt]
  rcases Nat.eq_zero_or_pos c with rfl | hc
  · rw [unpack_of_shape_zero h]
    cases negative <;> decide
  · rw [unpack_of_shape h hc]
    cases negative
    · simp [signOf, UnpackedFloat.compare]
    · simp [signOf, UnpackedFloat.compare, hc]

/-- A natural below `2 ^ 32` is cut to a word without a change, and so is the negative zero. -/
theorem toUInt32_of_shape (h : n.shape = .finite negative c e)
    (hsign : negative = true → c = 0) (hvalue : (c : ℚ) * 2 ^ e = k) (hk : k < 2 ^ 32) :
    n.toUInt32.toNat = k := by
  have hcut : n.toUInt32 = UInt32.ofNatClamp
      (UnpackedFloat.toInt 0 (UInt32.size - 1 : Nat) n.toModel.unpack).toNat := rfl
  have hclamp : (UInt32.ofNatClamp k).toNat = k := by
    rw [UInt32.ofNatClamp, dif_pos (show k < UInt32.size from hk)]
    rfl
  rcases Nat.eq_zero_or_pos c with rfl | hc
  · have hzero : k = 0 := by
      rw [Nat.cast_zero, zero_mul] at hvalue
      exact_mod_cast hvalue.symm
    rw [hcut, unpack_of_shape_zero h, hzero]
    rfl
  · obtain rfl : negative = false := Bool.eq_false_iff.2 fun hneg => hc.ne' (hsign hneg)
    have hsame : k * 2 ^ (0 - e).toNat = c * 2 ^ (e - 0).toNat := by
      refine mul_two_pow_eq ?_
      rw [zpow_zero, mul_one, hvalue]
    have hamount : (0 - (e - ((e - 0).toNat : Int))).toNat = (0 - e).toNat := by omega
    have hint : UnpackedFloat.toInt 0 (UInt32.size - 1 : Nat) n.toModel.unpack = k := by
      rw [unpack_of_shape h hc]
      show roundToInt .positive c e = k
      unfold roundToInt decreaseExponent shiftToExponent
      dsimp only
      rw [Nat.shiftLeft_eq, ← hsame, hamount, shiftRight_mul_two_pow]
      rfl
    rw [hcut, hint, Int.toNat_natCast, hclamp]

/-! ## Special numbers -/

/-- Numbers without a coefficient and an exponent have all bits of the exponent set. -/
theorem unpackExponent_of_field (h : n.toBits.toNat / 2 ^ 52 % 2048 = 2047) :
    @unpackExponent .binary64 n.toBits.toBitVec = -1#11 := by
  refine BitVec.eq_of_toNat_eq ?_
  rw [unpackExponent_def]
  simp only [BitVec.extractLsb'_toNat, UInt64.toNat_toBitVec, Nat.shiftRight_eq_div_pow]
  exact h

/-- A number is finite if it has a coefficient and an exponent. -/
theorem isFinite_iff : n.isFinite = true ↔ ∃ negative c e, n.shape = .finite negative c e := by
  have hunpack : n.isFinite = n.toModel.unpack.isFinite := rfl
  constructor
  · intro hfinite
    by_contra hnone
    have hfield : n.toBits.toNat / 2 ^ 52 % 2048 = 2047 := by
      by_contra hfield
      refine hnone ?_
      unfold shape
      simp only [show leadingBit = 2 ^ 52 from rfl]
      rw [if_neg hfield]
      split <;> exact ⟨_, _, _, rfl⟩
    have hspecial : n.toModel.unpack.isFinite = false := by
      show (UnpackedFloat.unpack Format.binary64 n.toBits.toBitVec).isFinite = false
      unfold UnpackedFloat.unpack
      dsimp only
      rw [if_pos (unpackExponent_of_field hfield)]
      split <;> rfl
    rw [hunpack, hspecial] at hfinite
    cases hfinite
  · rintro ⟨negative, c, e, hshape⟩
    rw [hunpack]
    rcases Nat.eq_zero_or_pos c with rfl | hc
    · rw [unpack_of_shape_zero hshape]
      rfl
    · rw [unpack_of_shape hshape hc]
      rfl

/-- There is one NaN. -/
theorem eq_nan_of_shape (h : n.shape = .nan) : n = Float.nan := by
  unfold shape at h
  simp only [show leadingBit = 2 ^ 52 from rfl] at h
  split at h
  · rename_i hfield
    split at h
    · cases h
    · rename_i hfraction
      have hmantissa : @unpackMantissa .binary64 n.toBits.toBitVec ≠ 0#52 := by
        intro hzero
        have hnat := congrArg BitVec.toNat hzero
        rw [unpackMantissa_def, BitVec.extractLsb'_toNat, UInt64.toNat_toBitVec,
          Nat.shiftRight_zero] at hnat
        exact hfraction hnat
      have hnan : @isNaNBits .binary64 n.toBits.toBitVec = true :=
        decide_eq_true ⟨unpackExponent_of_field hfield, hmantissa⟩
      have hpacked := pack_unpack_of_valid n.toModel.valid
      rw [pack_unpack] at hpacked
      have hbits : packedNaN Format.binary64 = n.toBits.toBitVec :=
        (if_pos hnan).symm.trans hpacked
      refine Float.toBits_inj.1 (UInt64.toBitVec_inj.1 (hbits.symm.trans ?_))
      decide
  · split at h <;> cases h

/-- There is one infinity of each sign. -/
theorem eq_infinity_of_shape (h : n.shape = .infinite negative) : n = infinity negative := by
  have hlt : n.toBits.toNat < 2 ^ 64 := n.toBits.toNat_lt
  unfold shape at h
  simp only [show leadingBit = 2 ^ 52 from rfl, show signBit = 2 ^ 63 from rfl] at h
  split at h
  · rename_i hfield
    split at h
    · rename_i hfraction
      obtain rfl := Shape.infinite.inj h
      refine ofMagnitudeBits_of_toBits ?_
      rw [show infinityBits = 2047 * 2 ^ 52 from rfl]
      by_cases hsign : 2 ^ 63 ≤ n.toBits.toNat
      · rw [decide_eq_true hsign, if_pos rfl]
        omega
      · rw [decide_eq_false hsign, if_neg Bool.false_ne_true]
        omega
    · cases h
  · split at h <;> cases h

end Number

end ReactiveScript
