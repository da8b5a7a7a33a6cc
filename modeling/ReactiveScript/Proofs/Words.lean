import ReactiveScript.Proofs.ExactArithmetic
import ReactiveScript.Value.Operator

/-!
# Words and bitwise operators

The word of a number is its value without the fraction, modulo `2 ^ 32`. It is found by operations
on numbers, all of which are exact here: the integer part of a number is a number, its remainder by
`2 ^ 32` is one, and the sum that makes the remainder nonnegative is a natural below `2 ^ 32`. So
bitwise operators are the operations on words of 32 bits.
-/

namespace ReactiveScript

namespace Number

variable {n a : Number} {negative : Bool} {c k m : Nat} {e : Int} {q : ℚ}

/-! ## The specification -/

/-- A rational without its fraction. -/
def truncated (q : ℚ) : Int := if 0 ≤ q then ⌊q⌋ else ⌈q⌉

/-- The word of 32 bits that a number stands for: its value without the fraction, modulo `2 ^ 32`,
and zero for NaN and the infinities. -/
def exactWord (n : Number) : BitVec 32 :=
  match n.value? with
  | some q => BitVec.ofInt 32 (truncated q)
  | none => 0

/-- The steps by which a number is cut to a word, each of which has the exact result: none rounds,
and the last does not saturate. -/
structure ExactSteps (n : Number) (q : ℚ) : Prop where
  trunc : n.trunc.value? = some (truncated q : ℚ)
  remainder : (n.trunc.remainder wordModulus).value? =
    some (((truncated q).tmod (2 ^ 32) : Int) : ℚ)
  euclideanRemainder : (n.trunc.euclideanRemainder wordModulus).value? =
    some ((truncated q % 2 ^ 32 : Int) : ℚ)
  cut : ((n.trunc.euclideanRemainder wordModulus).toUInt32.toNat : Int) = truncated q % 2 ^ 32

/-! ## Naturals -/

theorem truncated_withSign (negative : Bool) (hq : 0 ≤ q) :
    truncated (withSign negative q) = if negative then -(⌊q⌋₊ : Int) else ⌊q⌋₊ := by
  have hfloor : (⌊q⌋₊ : Int) = ⌊q⌋ := Int.natCast_floor_eq_floor hq
  rw [hfloor]
  cases negative with
  | false => exact if_pos hq
  | true =>
    show (if 0 ≤ -q then ⌊-q⌋ else ⌈-q⌉) = -⌊q⌋
    split
    · rename_i hneg
      rw [le_antisymm (neg_nonneg.1 hneg) hq]
      simp
    · exact Int.ceil_neg

/-- A natural below `2 ^ 53` is rounded to the number that it is. -/
theorem shape_ofRatio_natCast {r : Ratio} (hden : 0 < r.den) (hr : r.toRat = k) (hk : k < 2 ^ 53)
    (negative : Bool) :
    ∃ c e, Fits c e ∧ (ofRatio negative r).shape = .finite negative c e ∧
      (c : ℚ) * 2 ^ e = k := by
  obtain ⟨c, e, hfits, hvalue⟩ := exists_fits hk
  exact ⟨c, e, hfits, shape_ofRatio hfits negative hden (hr.trans hvalue), hvalue.symm⟩

/-! ## The steps -/

/-- The integer part of a number is a number. If the exponent is not negative it is the number
itself, and otherwise it is below `2 ^ 53`. -/
theorem shape_trunc (h : n.shape = .finite negative c e) :
    ∃ c' e', n.trunc.shape = .finite negative c' e' ∧
      (c' : ℚ) * 2 ^ e' = ⌊(c : ℚ) * 2 ^ e⌋₊ := by
  have hfits := fits_of_shape h
  have hfloor : (Ratio.ofPower c 2 e).floor = ⌊(c : ℚ) * 2 ^ e⌋₊ := by
    rw [Ratio.floor_eq, Ratio.toRat_ofPower_two]
  have htrunc : n.trunc = ofRatio negative (.ofNat ⌊(c : ℚ) * 2 ^ e⌋₊) := by
    unfold trunc
    rw [h, ← hfloor]
  rw [htrunc]
  by_cases he : 0 ≤ e
  · obtain ⟨i, rfl⟩ := Int.eq_ofNat_of_zero_le he
    have hwhole : (c : ℚ) * 2 ^ (i : Int) = (c * 2 ^ i : Nat) := by
      rw [zpow_natCast, Nat.cast_mul, Nat.cast_pow, Nat.cast_ofNat]
    rw [hwhole, Nat.floor_natCast]
    exact ⟨c, i, shape_ofRatio hfits negative Nat.one_pos ((Ratio.toRat_ofNat _).trans hwhole.symm),
      hwhole⟩
  · have hle : (c : ℚ) * 2 ^ e ≤ c :=
      mul_le_of_le_one_right c.cast_nonneg (zpow_le_one_of_nonpos₀ one_le_two (by omega))
    have hlt : ⌊(c : ℚ) * 2 ^ e⌋₊ < 2 ^ 53 := by
      refine lt_of_le_of_lt ?_ hfits.lt
      exact Nat.floor_le_of_le hle
    obtain ⟨c', e', -, hshape, hvalue⟩ :=
      shape_ofRatio_natCast Nat.one_pos (Ratio.toRat_ofNat _) hlt negative
    exact ⟨c', e', hshape, hvalue⟩

theorem shape_wordModulus : wordModulus.shape = .finite false (2 ^ 52) (-20) := by decide

/-- The remainder of an integer by `2 ^ 32` is a number. -/
theorem shape_remainder (h : a.shape = .finite negative c e) (hk : (c : ℚ) * 2 ^ e = k) :
    ∃ c' e', Fits c' e' ∧ (a.remainder wordModulus).shape = .finite negative c' e' ∧
      (c' : ℚ) * 2 ^ e' = (k % 2 ^ 32 : Nat) := by
  generalize hexponent : min e (-20) = exponent
  have hpos : (2 : ℚ) ^ exponent ≠ 0 := (zpow_pos two_pos exponent).ne'
  -- On the common grid, the integer and the modulus are multiples of one power of two.
  have hscale : (2 : ℚ) ^ exponent * 2 ^ (-exponent).toNat = 1 := by
    have hneg : ((-exponent).toNat : Int) = -exponent := by omega
    rw [← zpow_natCast, ← zpow_add₀ two_ne_zero, hneg, add_neg_cancel, zpow_zero]
  have hdividend : c * 2 ^ (e - exponent).toNat = k * 2 ^ (-exponent).toNat := by
    have hsplit : e = ((e - exponent).toNat : Int) + exponent := by omega
    have hcast : ((c * 2 ^ (e - exponent).toNat : Nat) : ℚ) * 2 ^ exponent =
        ((k * 2 ^ (-exponent).toNat : Nat) : ℚ) * 2 ^ exponent := by
      rw [hsplit, zpow_add₀ two_ne_zero, zpow_natCast, ← mul_assoc] at hk
      push_cast
      rw [hk, mul_assoc, mul_comm (2 ^ (-exponent).toNat : ℚ), hscale, mul_one]
    exact_mod_cast mul_right_cancel₀ hpos hcast
  have hdivisor : 2 ^ 52 * 2 ^ (-20 - exponent).toNat = 2 ^ 32 * 2 ^ (-exponent).toNat := by
    rw [← Nat.pow_add, ← Nat.pow_add]
    congr 1
    omega
  have hremainder : a.remainder wordModulus =
      ofRatio negative (.ofPower (k % 2 ^ 32 * 2 ^ (-exponent).toNat) 2 exponent) := by
    unfold remainder
    rw [h, shape_wordModulus]
    dsimp only
    rw [if_neg (by decide), hexponent, Nat.pow_eq, Nat.pow_eq, hdividend, hdivisor,
      Nat.mul_mod_mul_right]
  have hvalue : (Ratio.ofPower (k % 2 ^ 32 * 2 ^ (-exponent).toNat) 2 exponent).toRat =
      (k % 2 ^ 32 : Nat) := by
    rw [Ratio.toRat_ofPower, Nat.cast_mul, Nat.cast_pow, Nat.cast_ofNat, mul_assoc,
      mul_comm (2 ^ (-exponent).toNat : ℚ), hscale, mul_one]
  rw [hremainder]
  exact shape_ofRatio_natCast (Ratio.den_ofPower_pos Nat.two_pos _ _) hvalue (by omega) negative

/-- The remainder that is not negative is a number. Where the modulus is added to the remainder, the
sum is a natural below the modulus. -/
theorem shape_euclideanRemainder (h : a.shape = .finite negative c e)
    (hk : (c : ℚ) * 2 ^ e = k) :
    ∃ negative' c' e' m, (a.euclideanRemainder wordModulus).shape = .finite negative' c' e' ∧
      (negative' = true → c' = 0) ∧ (c' : ℚ) * 2 ^ e' = (m : Nat) ∧ m < 2 ^ 32 ∧
      (m : Int) = (if negative then -(k : Int) else k) % 2 ^ 32 := by
  obtain ⟨c₁, e₁, hfits₁, hshape₁, hvalue₁⟩ := shape_remainder h hk
  have hpow₁ : (2 : ℚ) ^ e₁ ≠ 0 := (zpow_pos two_pos e₁).ne'
  have hcoefficient : c₁ = 0 ↔ k % 2 ^ 32 = 0 := by
    constructor
    · rintro rfl
      rw [Nat.cast_zero, zero_mul] at hvalue₁
      exact_mod_cast hvalue₁.symm
    · intro hzero
      rw [hzero, Nat.cast_zero, mul_eq_zero] at hvalue₁
      exact_mod_cast hvalue₁.resolve_right hpow₁
  have hmodulus : wordModulus.abs = wordModulus := by decide
  unfold euclideanRemainder
  dsimp only
  by_cases hbelow : a.remainder wordModulus < 0
  · obtain ⟨rfl, hpos⟩ := (lt_zero_iff hshape₁).1 hbelow
    have hrest : k % 2 ^ 32 ≠ 0 := fun hzero => hpos.ne' (hcoefficient.2 hzero)
    obtain ⟨c₂, e₂, hfits₂, hvalue₂⟩ :=
      exists_fits (show 2 ^ 32 - k % 2 ^ 32 < 2 ^ 53 by omega)
    have hpos₂ : 0 < c₂ := by
      rcases Nat.eq_zero_or_pos c₂ with rfl | hpos₂
      · rw [Nat.cast_zero, zero_mul] at hvalue₂
        have hzero : 2 ^ 32 - k % 2 ^ 32 = 0 := by exact_mod_cast hvalue₂
        omega
      · exact hpos₂
    have hsum : withSign true (c₁ * (2 : ℚ) ^ e₁) +
        withSign false ((2 ^ 52 : Nat) * (2 : ℚ) ^ (-20 : Int)) =
          withSign false (c₂ * (2 : ℚ) ^ e₂) := by
      have hcast : ((2 ^ 32 - k % 2 ^ 32 : Nat) : ℚ) = 2 ^ 32 - (k % 2 ^ 32 : Nat) := by
        rw [Nat.cast_sub (by omega)]
        norm_num
      show -(c₁ * (2 : ℚ) ^ e₁) + (2 ^ 52 : Nat) * (2 : ℚ) ^ (-20 : Int) = c₂ * (2 : ℚ) ^ e₂
      rw [hvalue₁, ← hvalue₂, hcast]
      norm_num
      ring
    have hshape₂ := shape_add hshape₁ hpos shape_wordModulus (by decide) hfits₂ hpos₂ hsum
    rw [if_pos hbelow, hmodulus]
    refine ⟨false, c₂, e₂, 2 ^ 32 - k % 2 ^ 32, hshape₂, ?_, hvalue₂.symm, by omega, ?_⟩
    · intro hneg
      cases hneg
    · rw [if_pos rfl]
      omega
  · have hsign : negative = true → c₁ = 0 := fun hneg =>
      Nat.eq_zero_of_not_pos fun hpos => hbelow ((lt_zero_iff hshape₁).2 ⟨hneg, hpos⟩)
    rw [if_neg hbelow]
    refine ⟨negative, c₁, e₁, k % 2 ^ 32, hshape₁, hsign, hvalue₁, by omega, ?_⟩
    cases negative with
    | false =>
      rw [if_neg Bool.false_ne_true]
      omega
    | true =>
      have hzero := hcoefficient.1 (hsign rfl)
      rw [if_pos rfl]
      omega

/-! ## The word -/

/-- Every step on the way to the word of a finite number has the exact result. -/
theorem exactSteps (h : n.value? = some q) : ExactSteps n q := by
  obtain ⟨negative, c, e, hshape, rfl⟩ := shape_of_value? h
  have hnonneg : (0 : ℚ) ≤ c * 2 ^ e := mul_nonneg c.cast_nonneg (zpow_pos two_pos e).le
  have htruncated := truncated_withSign negative hnonneg
  obtain ⟨c₁, e₁, hshape₁, hvalue₁⟩ := shape_trunc hshape
  generalize ⌊(c : ℚ) * 2 ^ e⌋₊ = k at htruncated hvalue₁
  obtain ⟨c₂, e₂, -, hshape₂, hvalue₂⟩ := shape_remainder hshape₁ hvalue₁
  obtain ⟨negative₃, c₃, e₃, m, hshape₃, hsign, hvalue₃, hm, hmod⟩ :=
    shape_euclideanRemainder hshape₁ hvalue₁
  constructor <;> rw [htruncated]
  · rw [value?_of_shape hshape₁, hvalue₁, withSign_natCast]
  · rw [value?_of_shape hshape₂, hvalue₂, withSign_natCast]
    congr 2
    cases negative with
    | false => exact (Int.natCast_mod k (2 ^ 32)).trans rfl
    | true =>
      rw [if_pos rfl, if_pos rfl, Int.neg_tmod]
      rfl
  · rw [← hmod, value?_of_shape hshape₃, hvalue₃, Int.cast_natCast]
    congr 1
    cases negative₃ with
    | false => rfl
    | true =>
      rw [hsign rfl, Nat.cast_zero, zero_mul] at hvalue₃
      rw [← hvalue₃]
      exact neg_zero
  · rw [← hmod, toUInt32_of_shape hshape₃ hsign hvalue₃ hm]

/-- The word of a number is the one that it stands for. -/
theorem word_eq (n : Number) : n.word = n.exactWord := by
  unfold word exactWord
  by_cases hfinite : n.isFinite = true
  · obtain ⟨negative, c, e, hshape⟩ := isFinite_iff.1 hfinite
    have hvalue := value?_of_shape hshape
    have hcut := (exactSteps hvalue).cut
    rw [if_pos hfinite, hvalue]
    dsimp only
    refine BitVec.eq_of_toNat_eq ?_
    rw [BitVec.toNat_ofInt, UInt32.toNat_toBitVec]
    omega
  · have hvalue : n.value? = none := by
      refine Option.eq_none_iff_forall_ne_some.2 fun q hq => hfinite (isFinite_iff.2 ?_)
      obtain ⟨negative, c, e, hshape, -⟩ := shape_of_value? hq
      exact ⟨negative, c, e, hshape⟩
    rw [if_neg hfinite, hvalue]

/-- An integer of less than 53 bits is a number. -/
theorem value?_ofInt {i : Int} (hi : i.natAbs < 2 ^ 53) : (ofInt i).value? = some (i : ℚ) := by
  obtain ⟨c, e, -, hshape, hvalue⟩ :=
    shape_ofRatio_natCast Nat.one_pos (Ratio.toRat_ofNat i.natAbs) hi (decide (i < 0))
  have hshape' : (ofInt i).shape = .finite (decide (i < 0)) c e := hshape
  rw [value?_of_shape hshape', hvalue, withSign_natCast]
  congr 2
  by_cases hneg : i < 0
  · rw [decide_eq_true hneg, if_pos rfl]
    omega
  · rw [decide_eq_false hneg, if_neg Bool.false_ne_true]
    omega

end Number

/-! ## Bitwise operators -/

/-- The operators on words. -/
def BinaryOp.isBitwise : BinaryOp → Bool
  | bitAnd | bitOr | bitXor | shl | shr | ushr => true
  | _ => false

/-- What a bitwise operator gives for two words: a signed integer, or an unsigned one for the
unsigned shift. Distances of shifts count modulo 32. -/
def BinaryOp.ofWords (op : BinaryOp) (l r : BitVec 32) : Int :=
  match op with
  | bitAnd => (l &&& r).toInt
  | bitOr => (l ||| r).toInt
  | bitXor => (l ^^^ r).toInt
  | shl => (l <<< (r.toNat % 32)).toInt
  | shr => (l.sshiftRight (r.toNat % 32)).toInt
  | _ => (l >>> (r.toNat % 32)).toNat

namespace Value

variable {st : Store} {op : BinaryOp} {v l r : Value} {a b : Number} {w x : BitVec 32}

/-- The word that a primitive stands for in a bitwise operator. -/
def word? (v : Value) : Option (BitVec 32) := v.toNumber?.map Number.exactWord

theorem isSome_word? (v : Value) : v.word?.isSome = v.isPrimitive := by
  cases v <;> rfl

/-- The words of 32 bits as signed integers. -/
def SignedRange (i : Int) : Prop := -2 ^ 31 ≤ i ∧ i < 2 ^ 31

/-- The words of 32 bits as unsigned integers. -/
def UnsignedRange (i : Int) : Prop := 0 ≤ i ∧ i < 2 ^ 32

theorem shiftOf_eq (w : BitVec 32) : shiftOf w = w.toNat % 32 := by
  rw [shiftOf, BitVec.toNat_and]
  exact Nat.and_two_pow_sub_one_eq_mod w.toNat 5

theorem signedRange_toInt (w : BitVec 32) : SignedRange w.toInt := ⟨w.le_toInt, w.toInt_lt⟩

theorem unsignedRange_toNat (w : BitVec 32) : UnsignedRange w.toNat := by
  have hlt := w.isLt
  unfold UnsignedRange
  omega

theorem range_ofWords (op : BinaryOp) (w x : BitVec 32) (h : op.isBitwise = true) :
    if op = .ushr then UnsignedRange (op.ofWords w x) else SignedRange (op.ofWords w x) := by
  cases op with
  | ushr => exact unsignedRange_toNat _
  | bitAnd | bitOr | bitXor | shl | shr => exact signedRange_toInt _
  | _ => cases h

theorem natAbs_ofWords_lt (op : BinaryOp) (w x : BitVec 32) (h : op.isBitwise = true) :
    (op.ofWords w x).natAbs < 2 ^ 53 := by
  have hrange := range_ofWords op w x h
  unfold SignedRange UnsignedRange at hrange
  split at hrange <;> omega

/-- On words, an operator gives the number of its result. -/
theorem bitwise_eq (op : BinaryOp) (w x : BitVec 32) (h : op.isBitwise = true) :
    bitwise op w x = .number (Number.ofInt (op.ofWords w x)) := by
  cases op with
  | bitAnd | bitOr | bitXor => rfl
  | shl | shr | ushr =>
    unfold bitwise BinaryOp.ofWords
    rw [shiftOf_eq]
    rfl
  | _ => cases h

theorem applyBinary_bitwise (st : Store) (l r : Value) (h : op.isBitwise = true) :
    applyBinary st op l r = applyBitwise op l r := by
  cases op with
  | bitAnd | bitOr | bitXor | shl | shr | ushr => rfl
  | _ => cases h

theorem toNumber?_of_not_isPrimitive (h : v.isPrimitive = false) : v.toNumber? = none := by
  cases v with
  | null | bool | number | string => cases h
  | _ => rfl

theorem pairedOperand_of_word? (op : BinaryOp) (h : v.word? = some w) (other : Value) :
    ∃ a, pairedOperand op v other = .ok a ∧ a.word = w := by
  obtain ⟨a, ha, hw⟩ := Option.map_eq_some_iff.1 h
  refine ⟨a, ?_, (Number.word_eq a).trans hw⟩
  rw [pairedOperand, ha]

theorem applyBitwise_ok (hl : l.word? = some w) (hr : r.word? = some x) :
    applyBitwise op l r = .ok (bitwise op w x) := by
  obtain ⟨a, ha, rfl⟩ := pairedOperand_of_word? op hl r
  obtain ⟨b, hb, rfl⟩ := pairedOperand_of_word? op hr l
  rw [applyBitwise, pairedOperands, ha, hb]

theorem pairedOperand_error (h : v.isPrimitive = false) (other : Value) :
    pairedOperand op v other =
      .error (.unsupportedOperator op.symbol (v.typeName ++ " and " ++ other.typeName)) := by
  rw [pairedOperand, toNumber?_of_not_isPrimitive h]

/-- The operand that is no primitive is named first, and the left one if neither is. -/
theorem applyBitwise_error (h : (l.isPrimitive && r.isPrimitive) = false) :
    applyBitwise op l r = .error (.unsupportedOperator op.symbol
      (if l.isPrimitive then r.typeName ++ " and " ++ l.typeName
        else l.typeName ++ " and " ++ r.typeName)) := by
  cases hl : l.isPrimitive with
  | false =>
    rw [applyBitwise, pairedOperands, pairedOperand_error hl, if_neg Bool.false_ne_true]
  | true =>
    rw [hl, Bool.true_and] at h
    rw [← isSome_word?] at hl
    obtain ⟨w, hw⟩ := Option.isSome_iff_exists.1 hl
    obtain ⟨a, ha, -⟩ := pairedOperand_of_word? op hw r
    rw [applyBitwise, pairedOperands, ha, pairedOperand_error h, if_pos rfl]

end Value

/-- Bitwise operators are arithmetic on words of 32 bits. On primitives, whose words are the values
of their numbers without the fraction modulo `2 ^ 32`, they give the number of the result on the
words, which is in the signed range, and in the unsigned one for the unsigned shift; every step from
a finite number to its word is exact. An operand that is no primitive is refused. -/
theorem bitwise_operators_work_on_words (st : Store) :
    (∀ op : BinaryOp, op.isBitwise = true → ∀ l r : Value,
      (∀ w x, l.word? = some w → r.word? = some x →
        Value.applyBinary st op l r = .ok (.number (Number.ofInt (op.ofWords w x))) ∧
        (Number.ofInt (op.ofWords w x)).value? = some (op.ofWords w x : ℚ) ∧
        if op = .ushr then Value.UnsignedRange (op.ofWords w x)
          else Value.SignedRange (op.ofWords w x)) ∧
      ((l.isPrimitive && r.isPrimitive) = false →
        Value.applyBinary st op l r = .error (.unsupportedOperator op.symbol
          (if l.isPrimitive then r.typeName ++ " and " ++ l.typeName
            else l.typeName ++ " and " ++ r.typeName)))) ∧
    (∀ v : Value,
      (∀ w, v.word? = some w →
        Value.applyUnary .bitNot v = .ok (.number (Number.ofInt (~~~w).toInt)) ∧
        (Number.ofInt (~~~w).toInt).value? = some ((~~~w).toInt : ℚ) ∧
        Value.SignedRange (~~~w).toInt) ∧
      (v.isPrimitive = false →
        Value.applyUnary .bitNot v = .error (.unsupportedOperator "~" v.typeName)) ∧
      v.word?.isSome = v.isPrimitive) ∧
    ∀ (n : Number) (q : ℚ), n.value? = some q → n.ExactSteps q := by
  refine ⟨fun op hop l r => ⟨fun w x hl hr => ⟨?_, ?_, ?_⟩, fun hnone => ?_⟩,
    fun v => ⟨fun w hw => ⟨?_, ?_, ?_⟩, fun hnone => ?_, Value.isSome_word? v⟩,
    fun n q hq => Number.exactSteps hq⟩
  · rw [Value.applyBinary_bitwise st l r hop, Value.applyBitwise_ok hl hr,
      Value.bitwise_eq op w x hop]
  · exact Number.value?_ofInt (Value.natAbs_ofWords_lt op w x hop)
  · exact Value.range_ofWords op w x hop
  · rw [Value.applyBinary_bitwise st l r hop, Value.applyBitwise_error hnone]
  · obtain ⟨a, ha, rfl⟩ := Option.map_eq_some_iff.1 hw
    rw [Value.applyUnary, ha, ← Number.word_eq]
    rfl
  · obtain ⟨hlow, hhigh⟩ := Value.signedRange_toInt (~~~w)
    exact Number.value?_ofInt (by omega)
  · exact Value.signedRange_toInt (~~~w)
  · rw [Value.applyUnary, Value.toNumber?_of_not_isPrimitive hnone]
    rfl

/-- The shift of `-1.5` to the left by the string `33`, a list as an operand, the complement of an
infinity and of a list, and the way of `-1.5` to its word. -/
theorem bitwise_operators_work_on_words_negativeFraction :
    BinaryOp.shl.isBitwise = true ∧
      (Value.number (-1.5)).word? = some (-1) ∧ (Value.string "33").word? = some 33 ∧
      Value.applyBinary {} .shl (.number (-1.5)) (.string "33") =
        .ok (.number (Number.ofInt (-2))) ∧
      ((Value.number (-1.5)).isPrimitive && (Value.list 0).isPrimitive) = false ∧
      Value.applyBinary {} .shl (.number (-1.5)) (.list 0) =
        .error (.unsupportedOperator "<<" "list and number") ∧
      (Value.number (Number.infinity true)).word? = some 0 ∧
      Value.applyUnary .bitNot (.number (Number.infinity true)) =
        .ok (.number (Number.ofInt (-1))) ∧
      Value.applyUnary .bitNot (.list 0) = .error (.unsupportedOperator "~" "list") ∧
      Number.value? (-1.5) = some (-3 / 2) ∧ Number.ExactSteps (-1.5) (-3 / 2) := by
  have hword : ∀ {n : Number} {w : BitVec 32}, n.word = w → (Value.number n).word? = some w :=
    fun hw => congrArg some ((Number.word_eq _).symm.trans hw)
  have hleft : (Value.number (-1.5)).word? = some (-1) := hword (by decide)
  have hright : (Value.string "33").word? = some 33 :=
    hword (show (Number.parse "33").word = 33 by decide)
  have hinfinity : (Value.number (Number.infinity true)).word? = some 0 := hword (by decide)
  have hvalue : Number.value? (-1.5) = some (-3 / 2) := by
    have hshape : Number.shape (-1.5) = .finite true 6755399441055744 (-52) := by decide
    rw [Number.value?_of_shape hshape, Number.withSign]
    norm_num
  obtain ⟨hbinary, hunary, hsteps⟩ := bitwise_operators_work_on_words {}
  obtain ⟨hok, -⟩ := hbinary .shl rfl (.number (-1.5)) (.string "33")
  exact ⟨rfl, hleft, hright, (hok _ _ hleft hright).1, rfl,
    (hbinary .shl rfl (.number (-1.5)) (.list 0)).2 rfl, hinfinity,
    ((hunary _).1 _ hinfinity).1, (hunary (.list 0)).2.1 rfl, hvalue, hsteps _ _ hvalue⟩

end ReactiveScript
