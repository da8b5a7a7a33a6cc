import Mathlib
import ReactiveScript.Value.Equality

/-!
# What assignment takes for the same value

Two numbers are one exactly when their bit patterns are, and all NaNs are one number. The comparison
by which assignment detects a change tells all values apart but the two zeros.
-/

namespace ReactiveScript

theorem Number.isZero_nan : Number.isZero Float.nan = false := by decide

/-- The two zeros are the only different numbers that are equal, and NaN is the only number that is
not equal to itself. -/
theorem Number.equals_iff (a b : Number) :
    a.equals b = true ↔ a ≠ Float.nan ∧ (a = b ∨ (a.isZero && b.isZero) = true) := by
  unfold equals
  rw [Float.isNaN_eq_decide_eq_nan, Bool.and_eq_true, Bool.or_eq_true, beq_iff_eq, Float.toBits_inj]
  simp

namespace Value

/-- Two zeros, of whatever signs. -/
def bothZero : Value → Value → Bool
  | .number a, .number b => a.isZero && b.isZero
  | _, _ => false

theorem sameValue_number (a b : Number) :
    (Value.number a).sameValue (.number b) = true ↔ a = b ∨ (a.isZero && b.isZero) = true := by
  unfold sameValue
  rw [Bool.or_eq_true, Bool.and_eq_true, Float.isNaN_eq_decide_eq_nan,
    Float.isNaN_eq_decide_eq_nan, decide_eq_true_eq, decide_eq_true_eq, Number.equals_iff]
  by_cases ha : a = Float.nan
  · subst ha
    constructor
    · rintro (⟨-, rfl⟩ | ⟨hne, -⟩)
      · exact Or.inl rfl
      · exact absurd rfl hne
    · rintro (rfl | h)
      · exact Or.inl ⟨rfl, rfl⟩
      · rw [Number.isZero_nan] at h
        cases h
  · simp [ha]

/-- Assignment tells all values apart but the two zeros. -/
theorem sameValue_iff (a b : Value) : a.sameValue b = true ↔ a = b ∨ a.bothZero b = true := by
  cases a with
  | number m =>
    cases b with
    | number n =>
      rw [sameValue_number, Value.number.injEq]
      rfl
    | _ => simp [sameValue, strictEquals, bothZero]
  | _ => cases b <;> simp [sameValue, strictEquals, bothZero]

end Value

end ReactiveScript
