import ReactiveScript.Json.Read
import ReactiveScript.Proofs.Rounding
import ReactiveScript.Proofs.SameValue

/-!
# Integers as numbers

What is written of a number that is an integer is its integer value: a sign and a magnitude. The
magnitude is rounded to the number's own magnitude, so that this is enough to find the number again,
up to the sign of zero.
-/

namespace ReactiveScript

namespace Number

/-! ## The sign -/

section Sign

open Float.Model Float.Model.UnpackedFloat

theorem neg_unpack (spec : Format) (e : BitVec spec.exponentBits)
    (m : BitVec spec.mantissaBitsWithoutImplicit) :
    (UnpackedFloat.unpack spec (packComponents spec .positive e m)).neg =
      UnpackedFloat.unpack spec (packComponents spec .negative e m) := by
  unfold UnpackedFloat.unpack
  simp only [unpackMantissa_packComponents, unpackExponent_packComponents,
    unpackSign_packComponents, Sign.ofBitVec_toBitVec]
  split_ifs <;> rfl

/-- Negation flips the sign bit. -/
theorem neg_eq_of_toBits {a b : Number} {e : BitVec 11} {m : BitVec 52}
    (ha : a.toBits.toBitVec = packComponents .binary64 .positive e m)
    (hb : b.toBits.toBitVec = packComponents .binary64 .negative e m) : -a = b := by
  have hpacked := pack_unpack_of_valid b.toModel.valid
  refine Float.toBits_inj.1 (UInt64.toBitVec_inj.1 ?_)
  show UnpackedFloat.pack Format.binary64
    (UnpackedFloat.unpack Format.binary64 a.toBits.toBitVec).neg = b.toBits.toBitVec
  rw [ha, neg_unpack, ← hb]
  exact hpacked

theorem toNat_packComponents (s : Sign) (e : BitVec 11) (m : BitVec 52) :
    (packComponents .binary64 s e m).toNat =
      s.toBitVec.toNat * 2 ^ 63 + e.toNat * 2 ^ 52 + m.toNat := by
  show ((s.toBitVec ++ e) ++ m).toNat = _
  rw [BitVec.toNat_append, BitVec.toNat_append, ← Nat.shiftLeft_add_eq_or_of_lt m.isLt,
    ← Nat.shiftLeft_add_eq_or_of_lt e.isLt, Nat.shiftLeft_eq, Nat.shiftLeft_eq]
  omega

theorem toBitVec_ofMagnitudeBits (s : Sign) {bits : Nat} (h : bits < 2047 * 2 ^ 52) :
    (ofMagnitudeBits (s == .negative) bits).toBits.toBitVec =
      packComponents .binary64 s (.ofNat 11 (bits / 2 ^ 52)) (.ofNat 52 bits) := by
  have hsign : signBit = 2 ^ 63 := rfl
  have hpattern : (if (s == .negative) = true then signBit + bits else bits) =
      s.toBitVec.toNat * 2 ^ 63 + bits := by
    cases s
    · show signBit + bits = 1 * 2 ^ 63 + bits
      omega
    · show bits = 0 * 2 ^ 63 + bits
      omega
  have hs : s.toBitVec.toNat < 2 := s.toBitVec.isLt
  have hlt : s.toBitVec.toNat * 2 ^ 63 + bits < 2 ^ 64 := by omega
  have htoNat : (UInt64.ofNat (s.toBitVec.toNat * 2 ^ 63 + bits)).toNat =
      s.toBitVec.toNat * 2 ^ 63 + bits := UInt64.toNat_ofNat_of_lt' hlt
  unfold ofMagnitudeBits
  rw [hpattern, toBits_ofBits (by rw [htoNat]; omega)]
  refine BitVec.eq_of_toNat_eq ?_
  rw [UInt64.toNat_toBitVec, htoNat, toNat_packComponents, BitVec.toNat_ofNat, BitVec.toNat_ofNat]
  omega

theorem neg_ofMagnitudeBits {bits : Nat} (h : bits < 2047 * 2 ^ 52) :
    -ofMagnitudeBits false bits = ofMagnitudeBits true bits :=
  neg_eq_of_toBits (toBitVec_ofMagnitudeBits .positive h) (toBitVec_ofMagnitudeBits .negative h)

end Sign

theorem withSign_false (n : Number) : Json.withSign false n = n := rfl

/-- A sign in front of a magnitude is the sign bit. -/
theorem withSign_ofMagnitudeBits (negative : Bool) {bits : Nat} (h : bits < 2047 * 2 ^ 52) :
    Json.withSign negative (ofMagnitudeBits false bits) = ofMagnitudeBits negative bits := by
  cases negative with
  | false => exact withSign_false _
  | true => exact neg_ofMagnitudeBits h

/-! ## The magnitude -/

theorem isZero_of_shape {n : Number} {negative : Bool} {e : Int}
    (h : n.shape = .finite negative 0 e) : n.isZero = true := by
  unfold isZero
  rw [h]
  rfl

/-- A number that is an integer equals the number that the sign and the magnitude of the integer
give. -/
theorem equals_withSign_ofNat {n : Number} {i : Int} (h : n.toInt? = some i) :
    n.equals (Json.withSign (decide (i < 0)) (ofNat i.natAbs)) = true := by
  obtain ⟨negative, c, e, hshape, -⟩ := toInt?_eq_some h
  have hfits := fits_of_shape hshape
  have hvalue := natAbs_of_toInt? hshape h
  have hi := toInt?_of_shape hshape hvalue
  rw [h, Option.some.injEq] at hi
  have hnan : n ≠ Float.nan := by
    rintro rfl
    have hnan : Number.shape Float.nan = .nan := by decide
    rw [hnan] at hshape
    cases hshape
  have hmagnitude : (ofNat i.natAbs).shape = .finite false c e :=
    shape_ofRatio hfits false Nat.one_pos ((Ratio.toRat_ofNat _).trans hvalue.symm)
  rw [equals_iff]
  refine ⟨hnan, ?_⟩
  by_cases hzero : c = 0
  · subst hzero
    have hnatAbs : i.natAbs = 0 := by
      rw [Nat.cast_zero, zero_mul] at hvalue
      exact_mod_cast hvalue.symm
    have hnonneg : decide (i < 0) = false := decide_eq_false (by omega)
    rw [hnonneg, withSign_false, isZero_of_shape hshape]
    exact .inr (isZero_of_shape hmagnitude)
  · have hpos : i.natAbs ≠ 0 := by
      intro hnatAbs
      rw [hnatAbs, Nat.cast_zero, mul_eq_zero, Nat.cast_eq_zero] at hvalue
      exact hzero (hvalue.resolve_right (zpow_pos two_pos e).ne')
    have hsign : decide (i < 0) = negative := by
      cases negative with
      | false =>
        rw [if_neg Bool.false_ne_true] at hi
        exact decide_eq_false (by omega)
      | true =>
        rw [if_pos rfl] at hi
        exact decide_eq_true (by omega)
    rw [hsign, eq_of_shape hshape, eq_of_shape hmagnitude,
      withSign_ofMagnitudeBits negative hfits.bits_lt]
    exact .inl rfl

end Number

end ReactiveScript
