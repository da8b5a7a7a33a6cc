import ReactiveScript.Proofs.Rounding

/-!
# The nearest number

A value is rounded to the number nearest to it, and of two that are equally near to the one with the
even coefficient. Values from the middle between the greatest number and `2 ^ 1024` on are rounded
to infinity. There is only one such number, so that the way a value is written does not matter.
-/

namespace ReactiveScript

namespace Number

variable {m n : Number} {negative : Bool} {c d k : Nat} {e e' f : Int} {q x : ℚ} {r : Ratio}

/-! ## The specification -/

/-- The least value that is rounded to infinity: one half of a unit above the greatest number. -/
def overflowBound : ℚ := (2 ^ 53 - 1 / 2) * 2 ^ (971 : Int)

/-- No number is nearer to `q` than `c * 2 ^ e`, and of those that are as near it has the even
coefficient. -/
def Closest (q : ℚ) (c : Nat) (e : Int) : Prop :=
  ∀ d f, Fits d f → |q - c * 2 ^ e| ≤ |q - d * 2 ^ f| ∧
    (|q - c * 2 ^ e| = |q - d * 2 ^ f| → (c : ℚ) * 2 ^ e = d * 2 ^ f ∨ c % 2 = 0)

/-- The number nearest to a value with a sign, ties going to the even coefficient. -/
inductive Nearest (negative : Bool) (q : ℚ) (n : Number) : Prop where
  | finite (c : Nat) (e : Int) (shape : n.shape = .finite negative c e)
    (bound : q < overflowBound) (closest : Closest q c e) : Nearest negative q n
  | infinite (eq : n = infinity negative) (bound : overflowBound ≤ q) : Nearest negative q n

/-! ## Naturals -/

/-- A natural at most one half away, and even if it is that far, is the nearest, and an even one if
there are two. -/
theorem closest_natural (h : |x - k| ≤ 1 / 2) (htie : |x - k| = 1 / 2 → k % 2 = 0) (i : Nat) :
    |x - k| ≤ |x - i| ∧ (|x - k| = |x - i| → k = i ∨ k % 2 = 0) := by
  by_cases hi : k = i
  · rw [hi]
    exact ⟨le_refl _, fun _ => .inl rfl⟩
  · have hone : (1 : ℚ) ≤ |(k : ℚ) - i| := by
      have hint : (1 : Int) ≤ |(k : Int) - i| := Int.one_le_abs (by omega)
      exact_mod_cast hint
    have htriangle : |(k : ℚ) - i| ≤ |x - k| + |x - i| := by
      rw [abs_sub_comm x k]
      exact abs_sub_le (k : ℚ) x i
    refine ⟨by linarith only [h, hone, htriangle], fun heq => .inr (htie ?_)⟩
    linarith only [h, hone, htriangle, heq]

/-! ## Grids -/

/-- A number is on the grid of a smaller exponent. -/
theorem exists_natural_of_le (h : e ≤ f) (d : Nat) :
    ∃ i : Nat, (d : ℚ) * 2 ^ f = i * 2 ^ e := by
  refine ⟨d * 2 ^ (f - e).toNat, ?_⟩
  have hsplit : f = ((f - e).toNat : Int) + e := by omega
  rw [Nat.cast_mul, Nat.cast_pow, Nat.cast_ofNat, mul_assoc, ← zpow_natCast,
    ← zpow_add₀ two_ne_zero, ← hsplit]

/-- A number with a smaller exponent is below all coefficients of 53 bits. -/
theorem lt_of_exponent_lt (hfits : Fits d f) (h : f < e) :
    (d : ℚ) * 2 ^ f < 2 ^ 52 * (2 : ℚ) ^ e := by
  have hlt : (d : ℚ) < 2 ^ 53 := by exact_mod_cast hfits.lt
  have hpow : (2 : ℚ) ^ (f + 1) ≤ 2 ^ e := zpow_le_zpow_right₀ one_le_two h
  have hscaled : (d : ℚ) * 2 ^ f < 2 ^ 53 * 2 ^ f :=
    mul_lt_mul_of_pos_right hlt (zpow_pos two_pos f)
  rw [zpow_add_one₀ two_ne_zero] at hpow
  linarith only [hscaled, hpow]

/-- Rounding on the grid of the exponent of a value rounds to the closest number. Numbers with
greater exponents are on this grid, and those with smaller ones are below its part that matters. -/
theorem closest_of_grid (hx : q = x * 2 ^ e) (h : |x - k| ≤ 1 / 2)
    (htie : |x - k| = 1 / 2 → k % 2 = 0) (hlow : e = leastExponent ∨ 2 ^ 52 ≤ x)
    (hk : (c : ℚ) * 2 ^ e' = k * 2 ^ e) (heven : k % 2 = 0 → c % 2 = 0) : Closest q c e' := by
  have hpos : (0 : ℚ) < 2 ^ e := zpow_pos two_pos e
  have hdistance : ∀ y : ℚ, |q - y * 2 ^ e| = |x - y| * 2 ^ e := by
    intro y
    rw [hx, ← sub_mul, abs_mul, abs_of_pos hpos]
  intro d f hfits
  rw [hk, hdistance]
  by_cases hef : e ≤ f
  · obtain ⟨i, hi⟩ := exists_natural_of_le hef d
    obtain ⟨hle, heq⟩ := closest_natural h htie i
    rw [hi, hdistance]
    refine ⟨mul_le_mul_of_nonneg_right hle hpos.le, fun hsame => ?_⟩
    rcases heq (mul_right_cancel₀ hpos.ne' hsame) with rfl | hkeven
    · exact .inl rfl
    · exact .inr (heven hkeven)
  · have hx52 : 2 ^ 52 ≤ x := hlow.resolve_left (by have := hfits.least; omega)
    have hbelow := lt_of_exponent_lt hfits (not_le.1 hef)
    have hedge := (closest_natural h htie (2 ^ 52)).1
    have hstrict : |x - k| * 2 ^ e < |q - d * 2 ^ f| := by
      have hfar : q - 2 ^ 52 * 2 ^ e < q - d * 2 ^ f := by linarith only [hbelow]
      have hnear : |x - k| * 2 ^ e ≤ q - 2 ^ 52 * 2 ^ e := by
        rw [hx, ← sub_mul]
        refine mul_le_mul_of_nonneg_right (hedge.trans_eq ?_) hpos.le
        rw [Nat.cast_pow, Nat.cast_ofNat, abs_of_nonneg (sub_nonneg.2 hx52)]
      exact (hnear.trans_lt hfar).trans_le (le_abs_self _)
    exact ⟨hstrict.le, fun hsame => absurd hsame hstrict.ne⟩

/-! ## The bound -/

theorem zpow_mul_two_le (h : e < f) : (2 : ℚ) ^ e * 2 ≤ 2 ^ f := by
  rw [← zpow_add_one₀ two_ne_zero]
  exact zpow_le_zpow_right₀ one_le_two h

theorem lt_overflowBound (hx : x < 2 ^ 53) (he : e < 971) : x * 2 ^ e < overflowBound := by
  have hpos : (0 : ℚ) < 2 ^ e := zpow_pos two_pos e
  have hscaled : x * 2 ^ e < 2 ^ 53 * 2 ^ e := mul_lt_mul_of_pos_right hx hpos
  have hpow := zpow_mul_two_le he
  unfold overflowBound
  generalize (2 : ℚ) ^ (971 : Int) = unit at hpow ⊢
  linarith only [hscaled, hpow, hpos]

theorem overflowBound_le (hx : 2 ^ 52 ≤ x) (he : 971 < e) : overflowBound ≤ x * 2 ^ e := by
  have hpos : (0 : ℚ) < 2 ^ (971 : Int) := zpow_pos two_pos _
  have hscaled : 2 ^ 52 * (2 : ℚ) ^ e ≤ x * 2 ^ e :=
    mul_le_mul_of_nonneg_right hx (zpow_pos two_pos e).le
  have hpow := zpow_mul_two_le he
  unfold overflowBound
  generalize (2 : ℚ) ^ (971 : Int) = unit at hpos hpow ⊢
  linarith only [hscaled, hpow, hpos]

/-- A coefficient at the greatest exponent that is rounded to one of 53 bits is below the bound: the
tie at the bound goes to the even coefficient, which is too large. -/
theorem lt_of_rounded_lt (h : |x - k| ≤ 1 / 2) (htie : |x - k| = 1 / 2 → k % 2 = 0)
    (hk : k < 2 ^ 53) : x < 2 ^ 53 - 1 / 2 := by
  by_contra hle
  have hkRat : (k : ℚ) ≤ 2 ^ 53 - 1 := by
    have hsucc : k + 1 ≤ 2 ^ 53 := hk
    have hcast : (k : ℚ) + 1 ≤ 2 ^ 53 := by exact_mod_cast hsucc
    linarith only [hcast]
  have hbelow := le_abs_self (x - k)
  have hlast : (k : ℚ) = 2 ^ 53 - 1 := by linarith only [hle, hkRat, h, hbelow]
  have heven := htie (by linarith only [hle, hkRat, h, hbelow])
  have hodd : k + 1 = 2 ^ 53 := by
    have hcast : (k : ℚ) + 1 = 2 ^ 53 := by linarith only [hlast]
    exact_mod_cast hcast
  omega

/-! ## Rounding -/

/-- A value other than zero on the grid of its exponent, and the natural it is rounded to there. -/
structure Rounded (r : Ratio) (e : Int) (x : ℚ) (k : Nat) : Prop where
  /-- The value is `x` units of the grid. -/
  value : r.toRat = x * 2 ^ e
  least : leastExponent ≤ e
  lt : x < 2 ^ 53
  leading : e = leastExponent ∨ 2 ^ 52 ≤ x
  half : |x - k| ≤ 1 / 2
  tie : |x - k| = 1 / 2 → k % 2 = 0
  /-- What the bits are made of. -/
  eq : ∀ negative, ofRatio negative r =
    ofMagnitudeBits negative (min ((e - leastExponent).toNat * 2 ^ 52 + k) (2047 * 2 ^ 52))

theorem exists_rounded (hnum : r.num ≠ 0) (hden : 0 < r.den) : ∃ e x k, Rounded r e x k := by
  obtain ⟨hleast, hbelow, habove⟩ := exponentOf_spec hnum hden
  have hbits := fun negative => ofRatio_eq negative hnum
  generalize exponentOf r = e at hleast hbelow habove hbits
  have hpos : (0 : ℚ) < 2 ^ e := zpow_pos two_pos e
  have hscaled : r.toRat = (r.scale 2 (-e)).toRat * 2 ^ e := by
    rw [Ratio.toRat_scale, Nat.cast_ofNat, zpow_neg, inv_mul_cancel_right₀ hpos.ne']
  obtain ⟨hhalf, htie⟩ := Ratio.abs_sub_nearestEven (Ratio.den_scale_pos hden Nat.two_pos (-e))
  rw [hscaled] at hbelow habove
  exact ⟨e, _, _, hscaled, hleast, lt_of_mul_lt_mul_right hbelow hpos.le,
    habove.imp_right fun hle => le_of_mul_le_mul_right hle hpos, hhalf, htie, hbits⟩

namespace Rounded

theorem rounded_le (h : Rounded r e x k) : k ≤ 2 ^ 53 := by
  have hdown := (abs_le.1 h.half).1
  have hlt : (k : ℚ) < (2 ^ 53 + 1 : Nat) := by
    push_cast
    linarith only [hdown, h.lt]
  exact Nat.le_of_lt_succ (by exact_mod_cast hlt)

theorem rounded_leading (h : Rounded r e x k) : e = leastExponent ∨ 2 ^ 52 ≤ k := by
  have hup := (abs_le.1 h.half).2
  refine h.leading.imp_right fun hle => ?_
  have hlt : ((2 ^ 52 : Nat) : ℚ) < (k + 1 : Nat) := by
    push_cast
    linarith only [hup, hle]
  exact Nat.le_of_lt_succ (by exact_mod_cast hlt)

/-- A coefficient of 53 bits is that of the nearest number. -/
theorem nearest_of_lt (h : Rounded r e x k) (hk : k < 2 ^ 53) (he : e ≤ 971) (negative : Bool) :
    Nearest negative r.toRat (ofRatio negative r) := by
  have hfits : Fits k e := ⟨hk, h.rounded_leading.symm, h.least, he⟩
  have hshape : (ofRatio negative r).shape = .finite negative k e := by
    rw [h.eq, Nat.min_eq_left hfits.bits_lt.le]
    exact shape_ofMagnitudeBits hfits negative
  refine .finite k e hshape ?_ (closest_of_grid h.value h.half h.tie h.leading rfl id)
  rw [h.value]
  rcases Int.lt_or_eq_of_le he with hlt | rfl
  · exact lt_overflowBound h.lt hlt
  · exact mul_lt_mul_of_pos_right (lt_of_rounded_lt h.half h.tie hk) (zpow_pos two_pos _)

/-- A coefficient that is rounded up to 54 bits carries into the exponent. -/
theorem nearest_of_eq (h : Rounded r e x k) (hk : k = 2 ^ 53) (he : e < 971) (negative : Bool) :
    Nearest negative r.toRat (ofRatio negative r) := by
  have hleast := h.least
  have hfits : Fits (2 ^ 52) (e + 1) := ⟨by omega, .inl (Nat.le_refl _), by omega, by omega⟩
  have hshape : (ofRatio negative r).shape = .finite negative (2 ^ 52) (e + 1) := by
    have hcarry : (e - leastExponent).toNat * 2 ^ 52 + k =
        (e + 1 - leastExponent).toNat * 2 ^ 52 + 2 ^ 52 := by omega
    rw [h.eq, hcarry, Nat.min_eq_left hfits.bits_lt.le]
    exact shape_ofMagnitudeBits hfits negative
  have hvalue : ((2 ^ 52 : Nat) : ℚ) * 2 ^ (e + 1) = k * 2 ^ e := by
    rw [zpow_add_one₀ two_ne_zero, hk]
    push_cast
    ring
  refine .finite _ _ hshape ?_
    (closest_of_grid h.value h.half h.tie h.leading hvalue fun _ => rfl)
  rw [h.value]
  exact lt_overflowBound h.lt he

/-- Beyond the greatest exponent there is infinity. -/
theorem nearest_of_overflow (h : Rounded r e x k) (he : 971 < e ∨ e = 971 ∧ k = 2 ^ 53)
    (negative : Bool) : Nearest negative r.toRat (ofRatio negative r) := by
  have hleading := h.rounded_leading
  have hover : 2047 * 2 ^ 52 ≤ (e - leastExponent).toNat * 2 ^ 52 + k := by
    unfold leastExponent at hleading ⊢
    omega
  refine .infinite (by rw [h.eq, Nat.min_eq_right hover]; rfl) ?_
  rw [h.value]
  rcases he with hlt | ⟨rfl, hk⟩
  · exact overflowBound_le (h.leading.resolve_left (by unfold leastExponent; omega)) hlt
  · have hdown := (abs_le.1 h.half).1
    rw [hk, Nat.cast_pow, Nat.cast_ofNat] at hdown
    exact mul_le_mul_of_nonneg_right (by linarith only [hdown]) (zpow_pos two_pos _).le

end Rounded

/-- Zero is the nearest number to itself. -/
theorem nearest_zero (negative : Bool) : Nearest negative 0 (zero negative) := by
  refine .finite 0 leastExponent (shape_zero negative) ?_ fun d f _ => ⟨?_, fun _ => .inr rfl⟩
  · unfold overflowBound
    positivity
  · rw [Nat.cast_zero, zero_mul, sub_zero, abs_zero]
    exact abs_nonneg _

/-- Rounding gives the nearest number. -/
theorem nearest_ofRatio (hden : 0 < r.den) (negative : Bool) :
    Nearest negative r.toRat (ofRatio negative r) := by
  by_cases hnum : r.num = 0
  · rw [(Ratio.num_eq_zero_iff hden).1 hnum, ofRatio, if_pos hnum]
    exact nearest_zero negative
  · obtain ⟨e, x, k, h⟩ := exists_rounded hnum hden
    have hk := h.rounded_le
    by_cases he : 971 < e ∨ e = 971 ∧ k = 2 ^ 53
    · exact h.nearest_of_overflow he negative
    · rcases Nat.lt_or_eq_of_le hk with hlt | heq
      · exact h.nearest_of_lt hlt (by omega) negative
      · exact h.nearest_of_eq heq (by omega) negative

/-! ## There is one nearest number -/

/-- Coefficients and exponents that fit are determined by their value. -/
theorem Fits.unique (hc : Fits c e) (hd : Fits d f) (h : (c : ℚ) * 2 ^ e = d * 2 ^ f) :
    c = d ∧ e = f := by
  have hden := Ratio.den_ofPower_pos Nat.two_pos c e
  have hvalue := Ratio.toRat_ofPower_two c e
  have hsame := (shape_ofRatio hc false hden hvalue).symm.trans
    (shape_ofRatio hd false hden (hvalue.trans h))
  exact ⟨(Shape.finite.inj hsame).2.1, (Shape.finite.inj hsame).2.2⟩

/-- A value in the middle of two closest numbers is in the middle of neighbours, one of which has an
odd coefficient. -/
theorem Closest.odd_of_tie (hclosest : Closest q c e) (hc : Fits c e) (hd : Fits d f)
    (hlt : (c : ℚ) * 2 ^ e < d * 2 ^ f) (heq : |q - c * 2 ^ e| = |q - d * 2 ^ f|)
    (heven : c % 2 = 0) : d % 2 = 1 := by
  have hpos : (0 : ℚ) < 2 ^ e := zpow_pos two_pos e
  have hmiddle : 2 * q = c * 2 ^ e + d * 2 ^ f := by
    rcases abs_eq_abs.1 heq with hsame | hopposite
    · linarith only [hsame, hlt]
    · linarith only [hopposite]
  have hlt53 := hc.lt
  have hnext : Fits (c + 1) e :=
    ⟨by omega, hc.leading.imp_left Nat.le_succ_of_le, hc.least, hc.greatest⟩
  have hle : (d : ℚ) * 2 ^ f ≤ (c + 1 : Nat) * 2 ^ e := by
    have hstep : ((c + 1 : Nat) : ℚ) * 2 ^ e = c * 2 ^ e + 2 ^ e := by
      rw [Nat.cast_add, Nat.cast_one, add_mul, one_mul]
    have hnearer := (hclosest (c + 1) e hnext).1
    rw [hstep, abs_of_pos (by linarith only [hmiddle, hlt])] at hnearer
    rw [hstep]
    by_contra hbelow
    refine absurd hnearer (not_le.2 (abs_lt.2 ⟨?_, ?_⟩))
    · linarith only [hmiddle, hbelow]
    · linarith only [hpos]
  by_cases hef : e ≤ f
  · -- On the grid of the smaller exponent the greater number is the next one.
    obtain ⟨i, hi⟩ := exists_natural_of_le hef d
    rw [hi] at hlt hle
    have hci : c < i := by exact_mod_cast lt_of_mul_lt_mul_right hlt hpos.le
    have hic : i ≤ c + 1 := by exact_mod_cast le_of_mul_le_mul_right hle hpos
    obtain rfl : i = c + 1 := by omega
    obtain ⟨rfl, -⟩ := hd.unique hnext hi
    omega
  · have hbelow := lt_of_exponent_lt hd (not_le.1 hef)
    have hfull : 2 ^ 52 ≤ c := hc.leading.resolve_right (by have := hd.least; omega)
    have hscaled : 2 ^ 52 * (2 : ℚ) ^ e ≤ c * 2 ^ e :=
      mul_le_mul_of_nonneg_right (by exact_mod_cast hfull) hpos.le
    exact absurd (hbelow.trans_le hscaled) (not_lt.2 hlt.le)

/-- There is one closest number. -/
theorem Closest.unique (hc : Fits c e) (hd : Fits d f) (h : Closest q c e) (h' : Closest q d f) :
    c = d ∧ e = f := by
  refine hc.unique hd ?_
  have heq := le_antisymm (h d f hd).1 (h' c e hc).1
  by_contra hne
  have hceven := ((h d f hd).2 heq).resolve_left hne
  have hdeven := ((h' c e hc).2 heq.symm).resolve_left (Ne.symm hne)
  rcases lt_or_gt_of_ne hne with hlt | hgt
  · have hodd := h.odd_of_tie hc hd hlt heq hceven
    omega
  · have hodd := h'.odd_of_tie hd hc hgt heq.symm hdeven
    omega

namespace Nearest

/-- There is one nearest number. -/
theorem unique (h : Nearest negative q m) (h' : Nearest negative q n) : m = n := by
  cases h with
  | infinite heq hbound =>
    cases h' with
    | infinite heq' _ => rw [heq, heq']
    | finite c e _ hbound' _ => exact absurd hbound (not_le.2 hbound')
  | finite c e hshape hbound hclosest =>
    cases h' with
    | infinite _ hbound' => exact absurd hbound' (not_le.2 hbound)
    | finite d f hshape' _ hclosest' =>
      obtain ⟨rfl, rfl⟩ :=
        hclosest.unique (fits_of_shape hshape) (fits_of_shape hshape') hclosest'
      rw [eq_of_shape hshape, eq_of_shape hshape']

/-- Numbers nearest to values are no NaN. -/
theorem shape_ne_nan (h : Nearest negative q n) : n.shape ≠ .nan := by
  cases h with
  | finite c e hshape =>
    rw [hshape]
    exact Shape.noConfusion
  | infinite heq =>
    rw [heq, shape_infinity]
    exact Shape.noConfusion

/-- The nearest number of the other sign has the same coefficient and exponent. -/
theorem shape_eq (h : Nearest false q m) (hshape : m.shape = .finite false c e)
    (hn : n.shape = .finite negative c e) : Nearest negative q n := by
  cases h with
  | finite d f hshape' hbound hclosest =>
    obtain ⟨-, rfl, rfl⟩ := Shape.finite.inj (hshape'.symm.trans hshape)
    exact .finite d f hn hbound hclosest
  | infinite heq =>
    rw [heq, shape_infinity] at hshape
    cases hshape

end Nearest

/-! ## Values far away -/

/-- A finite number is nearest to its own value. -/
theorem nearest_of_shape (h : n.shape = .finite negative c e) : Nearest negative (c * 2 ^ e) n := by
  have hmagnitude := nearest_ofRatio (Ratio.den_ofPower_pos Nat.two_pos c e) false
  rw [Ratio.toRat_ofPower_two] at hmagnitude
  exact hmagnitude.shape_eq (shape_ofRatio_ofPower h false) h

/-- Values below one half of the smallest number are rounded to zero. -/
theorem nearest_zero_of_lt (hq : 0 ≤ q) (h : q * 2 < 2 ^ leastExponent) (negative : Bool) :
    Nearest negative q (zero negative) := by
  refine .finite 0 leastExponent (shape_zero negative) ?_ fun d f hfits => ?_
  · have hleast := lt_overflowBound (show (1 : ℚ) < 2 ^ 53 by norm_num)
      (show leastExponent < 971 by decide)
    linarith only [hleast, h, hq]
  · rw [Nat.cast_zero, zero_mul, sub_zero, abs_of_nonneg hq]
    refine ⟨?_, fun _ => .inr rfl⟩
    rcases Nat.eq_zero_or_pos d with rfl | hd
    · rw [Nat.cast_zero, zero_mul, sub_zero, abs_of_nonneg hq]
    · have hunit : (2 : ℚ) ^ leastExponent ≤ 2 ^ f := zpow_le_zpow_right₀ one_le_two hfits.least
      have hscaled : (1 : ℚ) * 2 ^ f ≤ d * 2 ^ f :=
        mul_le_mul_of_nonneg_right (by exact_mod_cast hd) (zpow_pos two_pos f).le
      refine le_trans ?_ (neg_le_abs _)
      linarith only [hunit, hscaled, h]

/-- A power of ten is greater than three times as many twos. -/
theorem two_zpow_le_ten (k : Nat) : (2 : ℚ) ^ (3 * k : Int) ≤ 10 ^ k := by
  have height : (2 : ℚ) ^ (3 : Int) ≤ 10 := by norm_num
  rw [zpow_mul, zpow_natCast]
  exact pow_le_pow_left₀ (zpow_pos two_pos _).le height k

theorem overflowBound_le_zpow {i : Int} (h : 342 ≤ i) : overflowBound ≤ 10 ^ i := by
  have hbound : overflowBound ≤ (2 : ℚ) ^ (3 * (342 : Nat) : Int) := by
    have hle := overflowBound_le (le_refl ((2 : ℚ) ^ 52)) (show (971 : Int) < 972 by decide)
    refine hle.trans ?_
    rw [← zpow_natCast, ← zpow_add₀ two_ne_zero]
    exact zpow_le_zpow_right₀ one_le_two (by decide)
  refine (hbound.trans (two_zpow_le_ten 342)).trans ?_
  rw [← zpow_natCast]
  exact zpow_le_zpow_right₀ (by norm_num) h

theorem zpow_lt_leastExponent {i : Int} (h : i ≤ -360) :
    (10 : ℚ) ^ i * 4 < 2 ^ leastExponent := by
  have hpow : (10 : ℚ) ^ i ≤ 10 ^ (-(360 : Nat) : Int) := zpow_le_zpow_right₀ (by norm_num) h
  have hinv : (10 : ℚ) ^ (-(360 : Nat) : Int) ≤ 2 ^ (-(3 * (360 : Nat)) : Int) := by
    rw [zpow_neg, zpow_neg, zpow_natCast]
    exact inv_anti₀ (zpow_pos two_pos _) (two_zpow_le_ten 360)
  have hsplit : (2 : ℚ) ^ leastExponent = 2 ^ (-(3 * (360 : Nat)) : Int) * 2 ^ (6 : Int) := by
    rw [← zpow_add₀ two_ne_zero]
    rfl
  have hpos : (0 : ℚ) < 2 ^ (-(3 * (360 : Nat)) : Int) := zpow_pos two_pos _
  rw [hsplit]
  generalize (2 : ℚ) ^ (-(3 * (360 : Nat)) : Int) = unit at hinv hpos ⊢
  norm_num
  linarith only [hpow, hinv, hpos]

/-- A decimal is rounded to the nearest number. -/
theorem nearest_ofDecimal (negative : Bool) (digits : Nat) (exponent : Int) :
    Nearest negative (digits * 10 ^ exponent) (ofDecimal negative digits exponent) := by
  have hpos : (0 : ℚ) < 10 ^ exponent := zpow_pos (by norm_num) exponent
  unfold ofDecimal
  by_cases hdigits : digits = 0
  · rw [if_pos hdigits, hdigits, Nat.cast_zero, zero_mul]
    exact nearest_zero negative
  rw [if_neg hdigits]
  by_cases hlarge : 400 < exponent
  · rw [if_pos hlarge]
    refine .infinite rfl ((overflowBound_le_zpow (show 342 ≤ exponent by omega)).trans ?_)
    have hone : (1 : ℚ) ≤ digits := by exact_mod_cast Nat.pos_of_ne_zero hdigits
    exact le_mul_of_one_le_left hpos.le hone
  rw [if_neg hlarge]
  by_cases hsmall : exponent + digits.log2 < -400
  · rw [if_pos hsmall]
    refine nearest_zero_of_lt (by positivity) ?_ negative
    have hlog : (digits : ℚ) < 2 * 10 ^ digits.log2 := by
      have hlt : digits < 2 * 10 ^ digits.log2 := by
        have hbits : digits < 2 ^ (digits.log2 + 1) := Nat.lt_log2_self
        have hten := Nat.pow_le_pow_left (show 2 ≤ 10 by decide) digits.log2
        rw [Nat.pow_succ] at hbits
        omega
      exact_mod_cast hlt
    have hscaled := mul_lt_mul_of_pos_right hlog hpos
    rw [mul_assoc, ← zpow_natCast, ← zpow_add₀ (by norm_num), add_comm] at hscaled
    have hfar := zpow_lt_leastExponent (show exponent + digits.log2 ≤ -360 by omega)
    linarith only [hscaled, hfar]
  · rw [if_neg hsmall]
    have hden : 0 < (Ratio.ofPower digits 10 exponent).den :=
      Ratio.den_ofPower_pos (by decide) digits exponent
    have hnearest := nearest_ofRatio hden negative
    rw [Ratio.toRat_ofPower, Nat.cast_ofNat] at hnearest
    exact hnearest

namespace Nearest

variable {i : Int}

theorem eq_infinity (h : Nearest negative q n) (hi : 342 ≤ i) (hq : 10 ^ i ≤ q) :
    n = infinity negative :=
  h.unique (.infinite rfl ((overflowBound_le_zpow hi).trans hq))

theorem eq_zero (h : Nearest negative q n) (hi : i ≤ -360) (hnonneg : 0 ≤ q) (hq : q < 10 ^ i) :
    n = zero negative := by
  refine h.unique (nearest_zero_of_lt hnonneg ?_ negative)
  have hfar := zpow_lt_leastExponent hi
  linarith only [hq, hfar, hnonneg]

end Nearest

end Number

end ReactiveScript
