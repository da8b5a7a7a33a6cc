import ReactiveScript.Proofs.MoreFuel

/-!
# Results

`Eval.attempt` turns the outcome of an evaluation into a result, a value or a failure. What is said
here of the results of combined evaluations holds both ways: a result comes about in the way that is
described, and whatever comes about in that way is the result.

An evaluation with fuel *comes to* a result if it has that result with some fuel. More fuel does not
change it, so that an evaluation comes to one result at most.
-/

namespace ReactiveScript

namespace Eval

variable {α β : Type} {m : Eval α} {f : α → Eval β} {s s' : State}

theorem attempt_eq_ok {r : Except Failure α} : m.attempt s = .ok r s' ↔
    (∃ a, r = .ok a ∧ m s = .ok a s') ∨
      ∃ failure, r = .error failure ∧ m s = .error failure s' := by
  unfold attempt
  constructor
  · intro h
    cases hm : m s with
    | ok a s₁ =>
      rw [hm] at h
      cases h
      exact Or.inl ⟨a, rfl, rfl⟩
    | error failure s₁ =>
      rw [hm] at h
      cases h
      exact Or.inr ⟨failure, rfl, rfl⟩
    | exhausted =>
      rw [hm] at h
      cases h
  · rintro (⟨a, rfl, hm⟩ | ⟨failure, rfl, hm⟩)
    · rw [hm]
    · rw [hm]

theorem attempt_eq_ok_ok {a : α} : m.attempt s = .ok (.ok a) s' ↔ m s = .ok a s' := by
  simp [attempt_eq_ok]

theorem attempt_eq_ok_error {failure : Failure} :
    m.attempt s = .ok (.error failure) s' ↔ m s = .error failure s' := by
  simp [attempt_eq_ok]

/-- A result is kept, not raised. -/
theorem attempt_ne_error {failure : Failure} : m.attempt s ≠ .error failure s' := by
  unfold attempt
  cases m s <;> simp

theorem attempt_pure {a : α} {r : Except Failure α} :
    (pure a : Eval α).attempt s = .ok r s' ↔ r = .ok a ∧ s' = s := by
  constructor
  · intro h
    cases h
    exact ⟨rfl, rfl⟩
  · rintro ⟨rfl, rfl⟩
    rfl

theorem attempt_fail {failure : Failure} {r : Except Failure α} :
    (fail failure : Eval α).attempt s = .ok r s' ↔ r = .error failure ∧ s' = s := by
  constructor
  · intro h
    cases h
    exact ⟨rfl, rfl⟩
  · rintro ⟨rfl, rfl⟩
    rfl

theorem attempt_ofResult {r r' : Except Failure α} :
    (ofResult r).attempt s = .ok r' s' ↔ r' = r ∧ s' = s := by
  cases r with
  | ok a => exact attempt_pure
  | error failure => exact attempt_fail

/-- What comes after an evaluation that does not fail. -/
theorem attempt_bind_of_ne_error (hm : ∀ failure s₁, m s ≠ .error failure s₁)
    {r : Except Failure β} :
    (m >>= f).attempt s = .ok r s' ↔ ∃ a s₁, m s = .ok a s₁ ∧ (f a).attempt s₁ = .ok r s' := by
  unfold attempt
  rw [bind_apply]
  cases h : m s with
  | ok a s₁ =>
    constructor
    · intro hr
      exact ⟨a, s₁, rfl, hr⟩
    · rintro ⟨a', s₂, heq, hr⟩
      cases heq
      exact hr
  | error failure s₁ => exact absurd h (hm failure s₁)
  | exhausted => simp

/-- What comes after an evaluation that may fail: its failure is the result, or else what comes
after it has one. -/
theorem attempt_bind {r : Except Failure β} : (m >>= f).attempt s = .ok r s' ↔
    (∃ failure, m s = .error failure s' ∧ r = .error failure) ∨
      ∃ a s₁, m s = .ok a s₁ ∧ (f a).attempt s₁ = .ok r s' := by
  unfold attempt
  rw [bind_apply]
  cases m s with
  | ok a s₁ =>
    constructor
    · intro hr
      exact Or.inr ⟨a, s₁, rfl, hr⟩
    · rintro (⟨failure, hm, -⟩ | ⟨a', s₂, hm, hr⟩)
      · cases hm
      · cases hm
        exact hr
  | error failure s₁ =>
    constructor
    · intro hr
      cases hr
      exact Or.inl ⟨failure, rfl, rfl⟩
    · rintro (⟨failure', hm, rfl⟩ | ⟨a', s₂, hm, -⟩)
      · cases hm
        rfl
      · cases hm
  | exhausted => simp

/-! ## Evaluations that come to an end -/

theorem pure_ne_exhausted {a : α} : (pure a : Eval α) s ≠ .exhausted := by
  intro h
  cases h

theorem bind_ne_exhausted (hm : m s ≠ .exhausted)
    (hf : ∀ a s₁, m s = .ok a s₁ → f a s₁ ≠ .exhausted) : (m >>= f) s ≠ .exhausted := by
  rw [bind_apply]
  cases hrun : m s with
  | ok a s₁ => exact hf a s₁ hrun
  | error failure s₁ =>
    intro h
    cases h
  | exhausted => exact absurd hrun hm

/-! ## With some fuel -/

/-- An evaluation has a result with some fuel. -/
def ComesTo (m : Nat → Eval α) (s : State) (r : Except Failure α) (s' : State) : Prop :=
  ∃ fuel, (m fuel).attempt s = .ok r s'

namespace ComesTo

variable {m m' : Nat → Eval α} {r : Except Failure α}

/-- An evaluation that answers with some fuel whenever another one answers, and answers the same,
comes to the same. -/
theorem of_extends (h : ComesTo m s r s')
    (hm : ∀ fuel, ∃ fuel', m fuel s = .exhausted ∨ m' fuel' s = m fuel s) : ComesTo m' s r s' := by
  obtain ⟨fuel, hr⟩ := h
  obtain ⟨fuel', hexhausted | hsame⟩ := hm fuel
  · unfold attempt at hr
    rw [hexhausted] at hr
    cases hr
  · refine ⟨fuel', ?_⟩
    unfold attempt at hr ⊢
    rw [hsame]
    exact hr

/-- Two evaluations come to the same if they answer alike when each is given a fixed amount of fuel
more. -/
theorem iff_of_shift (hm : ∀ n k, n ≤ k → (m n).Extends (m k))
    (hm' : ∀ n k, n ≤ k → (m' n).Extends (m' k)) {a b : Nat}
    (h : ∀ n, m (n + a) s = m' (n + b) s) : ComesTo m s r s' ↔ ComesTo m' s r s' := by
  constructor
  · refine fun hr => hr.of_extends fun fuel => ⟨fuel + b, ?_⟩
    rw [← h]
    exact hm fuel (fuel + a) (Nat.le_add_right fuel a) s
  · refine fun hr => hr.of_extends fun fuel => ⟨fuel + a, ?_⟩
    rw [h]
    exact hm' fuel (fuel + b) (Nat.le_add_right fuel b) s

end ComesTo

end Eval

end ReactiveScript
