import ReactiveScript.Proofs.Congruence.Program

/-!
# More fuel

An answer that is found with some fuel is found with more fuel as well.
-/

namespace ReactiveScript

/-- The second evaluation comes to what the first one comes to, unless that runs out of steps. -/
def Eval.Extends {α : Type} (m m' : Eval α) : Prop := ∀ s, m s = .exhausted ∨ m' s = m s

namespace Eval.Extends

variable {α β : Type} {m m' : Eval α} {f f' : α → Eval β}

theorem refl (m : Eval α) : m.Extends m := fun _ => .inr rfl

theorem bind (hm : m.Extends m') (hf : ∀ a, (f a).Extends (f' a)) :
    (m >>= f).Extends (m' >>= f') := by
  intro s
  rw [Eval.bind_apply, Eval.bind_apply]
  rcases hm s with h | h
  · rw [h]
    exact .inl rfl
  · rw [h]
    cases m s with
    | ok a s₁ => exact hf a s₁
    | error | exhausted => exact .inr rfl

/-- What is done before and afterwards is done with either. -/
theorem map {g : State → State} {k : Outcome State Failure α → Outcome State Failure β}
    (hm : m.Extends m') (hk : k .exhausted = .exhausted) :
    Eval.Extends (fun s => k (m (g s))) fun s => k (m' (g s)) := by
  intro s
  dsimp only
  rcases hm (g s) with h | h <;> rw [h]
  · exact .inl hk
  · exact .inr rfl

theorem attempt (hm : m.Extends m') : m.attempt.Extends m'.attempt := by
  intro s
  unfold Eval.attempt
  rcases hm s with h | h <;> rw [h]
  · exact .inl rfl
  · exact .inr rfl

theorem inCall (f : Function) (self : Value) (hm : m.Extends m') :
    (Eval.inCall f self m).Extends (Eval.inCall f self m') := by
  intro s
  unfold Eval.inCall
  split
  · exact .inr rfl
  · rename_i env _
    rcases hm { s with env } with h | h <;> rw [h]
    · exact .inl rfl
    · exact .inr rfl

/-- An evaluation whose parts are extended is extended. -/
theorem congruence (trace : Bool) : Congruence trace trace fun _ _ m m' => Eval.Extends m m' where
  ofCall hm := hm
  ofExpression hm := hm
  ofStatement hm := hm
  stop := refl _
  pure _ := refl _
  bind := bind
  fail _ := refl _
  mapError f hm := hm.map (g := id) (k := (·.mapError f)) rfl
  attempt := attempt
  checkInterrupt := refl _
  store := refl _
  tryWrite _ := refl _
  allocate _ _ := refl _
  hostCall _ _ _ := refl _
  emit _ := refl _
  emitIf _ _ := refl _
  exports _ _ := refl _
  get _ := refl _
  capture := refl _
  assignVariable _ _ := refl _
  register _ _ := refl _
  declare _ _ _ _ := refl _
  define _ _ _ := refl _
  setLocal _ _ := refl _
  inBlock hm := hm.map (g := fun s => { s with env := s.env.pushBlock })
    (k := (·.mapState fun s => { s with env := s.env.pop })) rfl
  inCall := inCall

end Eval.Extends

/-- A level is extended by every higher one. -/
theorem Evaluator.related_level_of_le (ctx : Context) {n k : Nat} (h : n ≤ k) :
    (level ctx n).Related (fun _ _ m m' => m.Extends m') (level ctx k) := by
  induction n generalizing k with
  | zero => exact ⟨fun _ _ => .inl rfl, fun _ _ => .inl rfl, fun _ _ => .inl rfl,
      fun _ _ _ _ => .inl rfl, fun _ _ => .inl rfl⟩
  | succ n ih =>
    obtain ⟨k, rfl⟩ : ∃ l, k = l + 1 := ⟨k - 1, by omega⟩
    rw [level_succ, level_succ]
    exact (Eval.Extends.congruence ctx.trace).next (ih (by omega))

theorem Interpreter.execute_of_le {ctx : Context} {fuel fuel' : Nat} {program : List Stmt}
    {s s' : State} {v : Value} (h : execute ctx fuel program s = .ok v s') (hle : fuel ≤ fuel') :
    execute ctx fuel' program s = .ok v s' := by
  have hextends : (execute ctx fuel program).Extends (execute ctx fuel' program) :=
    (Eval.Extends.congruence ctx.trace).executeWith (Evaluator.related_level_of_le ctx hle) program
  rcases hextends s with hs | hs
  · rw [hs] at h
    cases h
  · exact hs.trans h

end ReactiveScript
