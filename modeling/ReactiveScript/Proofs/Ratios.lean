import Mathlib
import ReactiveScript.Number.Ratio

/-!
# Ratios as rational numbers

What the operations on ratios do to the rational number that a ratio denotes. Two ratios may denote
the same rational, and so long as an operation only depends on the rational, it need not be known how
a ratio came about.
-/

namespace ReactiveScript

namespace Ratio

variable {r : Ratio} {base k n : Nat}

/-- The rational number that a ratio denotes. -/
def toRat (r : Ratio) : ℚ := r.num / r.den

theorem toRat_nonneg (r : Ratio) : 0 ≤ r.toRat := div_nonneg r.num.cast_nonneg r.den.cast_nonneg

theorem toRat_ofNat (n : Nat) : (ofNat n).toRat = n := by
  rw [toRat, ofNat, Nat.cast_one, div_one]

/-! ## Scaling -/

theorem den_scale_pos (hden : 0 < r.den) (hbase : 0 < base) (e : Int) :
    0 < (r.scale base e).den := by
  unfold scale
  by_cases he : 0 ≤ e
  · rw [if_pos he]
    exact hden
  · rw [if_neg he]
    exact Nat.mul_pos hden (Nat.pow_pos hbase)

theorem den_ofPower_pos (hbase : 0 < base) (n : Nat) (e : Int) : 0 < (ofPower n base e).den :=
  den_scale_pos Nat.one_pos hbase e

theorem toRat_scale (r : Ratio) (base : Nat) (e : Int) :
    (r.scale base e).toRat = r.toRat * (base : ℚ) ^ e := by
  have hcast : ∀ n : Nat, ((Nat.pow base n : Nat) : ℚ) = (base : ℚ) ^ n :=
    fun n => Nat.cast_pow base n
  unfold scale toRat
  by_cases he : 0 ≤ e
  · obtain ⟨n, rfl⟩ := Int.eq_ofNat_of_zero_le he
    rw [if_pos he, Int.toNat_natCast, Nat.cast_mul, hcast, zpow_natCast, div_mul_eq_mul_div]
  · obtain ⟨n, rfl⟩ : ∃ n : Nat, e = -(n : Int) := ⟨(-e).toNat, by omega⟩
    rw [if_neg he, neg_neg, Int.toNat_natCast, Nat.cast_mul, hcast, zpow_neg, zpow_natCast,
      div_mul_eq_div_div, div_eq_mul_inv]

theorem toRat_ofPower (n base : Nat) (e : Int) :
    (ofPower n base e).toRat = n * (base : ℚ) ^ e := by
  rw [ofPower, toRat_scale, toRat_ofNat]

theorem toRat_ofPower_two (n : Nat) (e : Int) : (ofPower n 2 e).toRat = n * 2 ^ e := by
  rw [toRat_ofPower, Nat.cast_ofNat]

/-! ## Naturals near a ratio -/

theorem floor_eq (r : Ratio) : r.floor = ⌊r.toRat⌋₊ := (Nat.floor_div_eq_div r.num r.den).symm

theorem toRat_eq_natCast_iff (hden : 0 < r.den) : r.toRat = k ↔ r.num = k * r.den := by
  have hne : (r.den : ℚ) ≠ 0 := Nat.cast_ne_zero.2 hden.ne'
  rw [toRat, div_eq_iff hne]
  exact_mod_cast Iff.rfl

theorem isWhole_iff (hden : 0 < r.den) : r.isWhole = true ↔ ∃ k : Nat, r.toRat = k := by
  rw [isWhole, beq_iff_eq, ← Nat.dvd_iff_mod_eq_zero]
  refine exists_congr fun k => ?_
  rw [toRat_eq_natCast_iff hden, Nat.mul_comm]

theorem floor_of_toRat (hk : r.toRat = k) : r.floor = k := by
  rw [floor_eq, hk, Nat.floor_natCast]

/-- A natural is the nearest one to itself. -/
theorem nearestEven_of_toRat (hden : 0 < r.den) (hk : r.toRat = k) : r.nearestEven = k := by
  have hnum : r.num = k * r.den := (toRat_eq_natCast_iff hden).1 hk
  have hbelow : r.compareToHalf = .lt := by
    rw [compareToHalf, hnum, Nat.mul_mod_left]
    exact Nat.compare_eq_lt.2 hden
  rw [nearestEven, hbelow]
  exact floor_of_toRat hk

/-- The nearest natural is at most one half away, and it is even if it is that far. -/
theorem abs_sub_nearestEven (hden : 0 < r.den) :
    |r.toRat - r.nearestEven| ≤ 1 / 2 ∧
      (|r.toRat - r.nearestEven| = 1 / 2 → r.nearestEven % 2 = 0) := by
  have hpos : (0 : ℚ) < r.den := Nat.cast_pos.2 hden
  generalize hrest : r.num % r.den = rest
  have hsplit : r.toRat = r.floor + (rest : ℚ) / r.den := by
    have hnum : r.num = r.floor * r.den + rest := by
      rw [← hrest, floor, Nat.div_add_mod']
    rw [toRat, hnum, Nat.cast_add, Nat.cast_mul, add_div, mul_div_cancel_right₀ _ hpos.ne']
  have hnonneg : 0 ≤ (rest : ℚ) / r.den := by positivity
  unfold nearestEven compareToHalf
  rw [hrest, hsplit]
  rcases Nat.lt_trichotomy (2 * rest) r.den with hlt | heq | hgt
  · have hhalf : (rest : ℚ) / r.den < 1 / 2 := by
      rw [div_lt_div_iff₀ hpos two_pos]
      exact_mod_cast (by omega : rest * 2 < 1 * r.den)
    rw [Nat.compare_eq_lt.2 hlt]
    dsimp only
    rw [add_sub_cancel_left, abs_of_nonneg hnonneg]
    exact ⟨hhalf.le, fun h => absurd h hhalf.ne⟩
  · have hhalf : (rest : ℚ) / r.den = 1 / 2 := by
      rw [div_eq_div_iff hpos.ne' two_ne_zero]
      exact_mod_cast (by omega : rest * 2 = 1 * r.den)
    rw [Nat.compare_eq_eq.2 heq, hhalf]
    dsimp only
    rcases Nat.mod_two_eq_zero_or_one r.floor with heven | hodd
    · rw [heven, Nat.add_zero, add_sub_cancel_left]
      norm_num
      exact heven
    · rw [hodd, Nat.cast_add, add_sub_add_left_eq_sub]
      norm_num
      omega
  · have hhalf : 1 / 2 < (rest : ℚ) / r.den := by
      rw [div_lt_div_iff₀ two_pos hpos]
      exact_mod_cast (by omega : 1 * r.den < rest * 2)
    have hone : (rest : ℚ) / r.den < 1 := by
      rw [div_lt_one hpos]
      exact_mod_cast hrest ▸ Nat.mod_lt r.num hden
    rw [Nat.compare_eq_gt.2 hgt]
    dsimp only
    rw [Nat.cast_add, Nat.cast_one, add_sub_add_left_eq_sub, abs_of_neg (by linarith only [hone])]
    constructor
    · linarith only [hhalf]
    · intro h
      linarith only [hhalf, h]

/-! ## The logarithm -/

theorem num_eq_zero_iff (hden : 0 < r.den) : r.num = 0 ↔ r.toRat = 0 := by
  have hne : (r.den : ℚ) ≠ 0 := Nat.cast_ne_zero.2 hden.ne'
  rw [toRat, div_eq_zero_iff, or_iff_left hne, Nat.cast_eq_zero]

theorem zpow_log2_sub_one_lt (hnum : r.num ≠ 0) (hden : 0 < r.den) :
    (2 : ℚ) ^ (r.log2 - 1) < r.toRat := by
  have hlow : (2 : ℚ) ^ r.num.log2 ≤ r.num := by
    exact_mod_cast Nat.log2_self_le hnum
  have hhigh : (r.den : ℚ) < 2 ^ (r.den.log2 + 1) := by
    exact_mod_cast Nat.lt_log2_self
  have hpos : (0 : ℚ) < r.den := Nat.cast_pos.2 hden
  have hexp : (r.log2 - 1 : Int) = (r.num.log2 : Int) - ((r.den.log2 + 1 : Nat) : Int) := by
    unfold log2
    omega
  rw [hexp, zpow_sub₀ two_ne_zero, zpow_natCast, zpow_natCast, toRat]
  calc (2 : ℚ) ^ r.num.log2 / 2 ^ (r.den.log2 + 1) < 2 ^ r.num.log2 / r.den := by gcongr
    _ ≤ r.num / r.den := by gcongr

theorem toRat_lt_zpow_log2_add_one (hden : 0 < r.den) : r.toRat < (2 : ℚ) ^ (r.log2 + 1) := by
  have hhigh : (r.num : ℚ) < 2 ^ (r.num.log2 + 1) := by
    exact_mod_cast Nat.lt_log2_self
  have hlow : (2 : ℚ) ^ r.den.log2 ≤ r.den := by
    exact_mod_cast Nat.log2_self_le hden.ne'
  have hpos : (0 : ℚ) < r.den := Nat.cast_pos.2 hden
  have hexp : (r.log2 + 1 : Int) = ((r.num.log2 + 1 : Nat) : Int) - (r.den.log2 : Int) := by
    unfold log2
    omega
  rw [hexp, zpow_sub₀ two_ne_zero, zpow_natCast, zpow_natCast, toRat]
  calc (r.num : ℚ) / r.den < 2 ^ (r.num.log2 + 1) / r.den := by gcongr
    _ ≤ 2 ^ (r.num.log2 + 1) / 2 ^ r.den.log2 := by gcongr

end Ratio

end ReactiveScript
