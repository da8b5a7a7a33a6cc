import ReactiveScript.Proofs.Returns

/-!
# Switch statements

A `switch` statement finds a case first and falls through from there. The tests are evaluated one
after the other, until one is strictly equal to the discriminant or a default is reached; the bodies
from this case on run one after the other, until one of them does not complete normally. All of this
happens in one scope. The same comes about in a single pass over the cases that remembers whether a
case was found (`Rule.caseLoop`).
-/

namespace ReactiveScript

open Interpreter (execStmt)

/-- The state inside of a new block. -/
abbrev State.enterBlock (s : State) : State := { s with env := s.env.pushBlock }

/-- A block leaves its scope, whatever its evaluation comes to. -/
theorem Eval.attempt_inBlock {α : Type} {m : Eval α} {s s' : State} {r : Except Failure α} :
    (Eval.inBlock m).attempt s = .ok r s' ↔
      ∃ s₁, m.attempt s.enterBlock = .ok r s₁ ∧ s' = s₁.leaveScope := by
  unfold Eval.attempt Eval.inBlock
  cases m s.enterBlock with
  | ok a s₁ | error failure s₁ =>
    constructor
    · intro h
      cases h
      exact ⟨s₁, rfl, rfl⟩
    · rintro ⟨s₂, h, rfl⟩
      cases h
      rfl
  | exhausted => simp [Outcome.mapState]

theorem Eval.inBlock_ne_exhausted {α : Type} {m : Eval α} {s : State}
    (hm : m s.enterBlock ≠ .exhausted) : Eval.inBlock m s ≠ .exhausted := by
  unfold Eval.inBlock
  cases hrun : m s.enterBlock with
  | ok a s₁ | error failure s₁ =>
    intro h
    cases h
  | exhausted => exact absurd hrun hm

namespace Rule

/-- A case of a `switch` statement: its test, unless it is a default, and its body. -/
abbrev Case := Option Expr × List Stmt

/-- Cases that are passed over: their tests are evaluated in order, once each, and none is strictly
equal to the value that is looked for. There is no default among them. -/
inductive PassesOver (ev : Evaluator) (v : Value) : State → List Case → State → Prop where
  | nil {s : State} : PassesOver ev v s [] s
  | cons {test : Expr} {body : List Stmt} {rest : List Case} {s s₁ s' : State} {t : Value}
    (htest : ev.expr test s = .ok t s₁) (hdiffers : v.strictEquals t = false)
    (hrest : PassesOver ev v s₁ rest s') : PassesOver ev v s ((some test, body) :: rest) s'

/-- The case that is found: a default, or the first whose test is strictly equal to the value. -/
inductive Found (ev : Evaluator) (v : Value) (s : State) : Option Expr → State → Prop where
  | default : Found ev v s none s
  | equal {test : Expr} {s' : State} {t : Value} (htest : ev.expr test s = .ok t s')
    (hequal : v.strictEquals t = true) : Found ev v s (some test) s'

/-- Bodies run once each and in order, until one does not complete normally, and what this comes to:
a `break` ends the bodies normally, and everything else is passed on. -/
inductive FallsThrough (ev : Evaluator) :
    State → List (List Stmt) → Except Failure Completion → State → Prop where
  | ended {s : State} : FallsThrough ev s [] (.ok .done) s
  | next {body : List Stmt} {rest : List (List Stmt)} {s s₁ s' : State} {v : Value}
    {r : Except Failure Completion} (hbody : ev.stmts body s = .ok (.normal v) s₁)
    (hrest : FallsThrough ev s₁ rest r s') : FallsThrough ev s (body :: rest) r s'
  | broke {body : List Stmt} {rest : List (List Stmt)} {s s' : State}
    (hbody : ev.stmts body s = .ok .broke s') : FallsThrough ev s (body :: rest) (.ok .done) s'
  | continued {body : List Stmt} {rest : List (List Stmt)} {s s' : State}
    (hbody : ev.stmts body s = .ok .continued s') :
    FallsThrough ev s (body :: rest) (.ok .continued) s'
  | returned {body : List Stmt} {rest : List (List Stmt)} {s s' : State} {v : Value}
    (hbody : ev.stmts body s = .ok (.returned v) s') :
    FallsThrough ev s (body :: rest) (.ok (.returned v)) s'
  | failed {body : List Stmt} {rest : List (List Stmt)} {s s' : State} {failure : Failure}
    (hbody : ev.stmts body s = .error failure s') :
    FallsThrough ev s (body :: rest) (.error failure) s'

/-- What the cases come to, inside of their scope. -/
inductive CasesRun (ev : Evaluator) (v : Value) (s : State) (cases : List Case) :
    Except Failure Completion → State → Prop where
  | notFound {s' : State} (hpassed : PassesOver ev v s cases s') :
    CasesRun ev v s cases (.ok .done) s'
  | testFailed {before after : List Case} {test : Expr} {body : List Stmt} {s₁ s' : State}
    {failure : Failure} (hcases : cases = before ++ (some test, body) :: after)
    (hpassed : PassesOver ev v s before s₁) (htest : ev.expr test s₁ = .error failure s') :
    CasesRun ev v s cases (.error failure) s'
  | found {before after : List Case} {test : Option Expr} {body : List Stmt} {s₁ s₂ s' : State}
    {r : Except Failure Completion} (hcases : cases = before ++ (test, body) :: after)
    (hpassed : PassesOver ev v s before s₁) (hfound : Found ev v s₁ test s₂)
    (hbodies : FallsThrough ev s₂ (body :: after.map Prod.snd) r s') :
    CasesRun ev v s cases r s'

/-- A run of a `switch` statement: the discriminant once, and then the cases in a scope of their
own. -/
inductive SwitchRuns (ev : Evaluator) (discriminant : Expr) (cases : List Case) (s : State) :
    Except Failure Completion → State → Prop where
  | failed {s' : State} {failure : Failure}
    (hdiscriminant : ev.expr discriminant s = .error failure s') :
    SwitchRuns ev discriminant cases s (.error failure) s'
  | ran {v : Value} {s₁ s₂ : State} {r : Except Failure Completion}
    (hdiscriminant : ev.expr discriminant s = .ok v s₁)
    (hcases : CasesRun ev v s₁.enterBlock cases r s₂) :
    SwitchRuns ev discriminant cases s r s₂.leaveScope

/-- All that the cases are made of is evaluated to an end. -/
structure CasesEnd (ev : Evaluator) (cases : List Case) : Prop where
  test (e : Expr) (body : List Stmt) : (some e, body) ∈ cases → ∀ s, ev.expr e s ≠ .exhausted
  body (test : Option Expr) (body : List Stmt) :
    (test, body) ∈ cases → ∀ s, ev.stmts body s ≠ .exhausted

/-- Whether a case is entered from above, when `found` says whether an earlier one was. The test is
evaluated only if none was. -/
def entersCase (ev : Evaluator) (v : Value) (found : Bool) (test : Option Expr) : Eval Bool :=
  if found then pure true
  else
    match test with
    | some test => do
      let t ← ev.expr test
      pure (v.strictEquals t)
    | none => pure true

/-- A single pass over the cases. -/
def caseLoop (ev : Evaluator) (v : Value) : (found : Bool) → List Case → Eval Completion
  | _, [] => pure .done
  | found, (test, body) :: rest => do
    let found ← entersCase ev v found test
    if found then do
      let completion ← ev.stmts body
      match completion with
      | .normal _ => caseLoop ev v true rest
      | .broke => pure .done
      | completion => pure completion
    else caseLoop ev v false rest

variable {ev : Evaluator} {v t : Value} {s s₁ s₂ s' : State} {cases before rest : List Case}
  {test : Expr} {body : List Stmt} {r : Except Failure Completion} {failure : Failure}

/-! ## Bodies -/

/-- The bodies, as they are described by `FallsThrough`. By induction on the cases. -/
theorem attempt_fallThrough :
    (fallThrough ev cases).attempt s = .ok r s' ↔ FallsThrough ev s (cases.map Prod.snd) r s' := by
  induction cases generalizing s with
  | nil =>
    have hdone : (fallThrough ev []).attempt s = .ok r s' ↔ r = .ok .done ∧ s' = s :=
      Eval.attempt_pure
    rw [hdone]
    constructor
    · rintro ⟨rfl, rfl⟩
      exact .ended
    · intro h
      cases h
      exact ⟨rfl, rfl⟩
  | cons case rest ih =>
    obtain ⟨test, body⟩ := case
    rw [fallThrough, Eval.attempt_bind, List.map_cons]
    constructor
    · rintro (⟨failure, hbody, rfl⟩ | ⟨c, s₁, hbody, hrest⟩)
      · exact .failed hbody
      · cases c with
        | normal w => exact .next hbody (ih.1 hrest)
        | broke =>
          obtain ⟨rfl, rfl⟩ := Eval.attempt_pure.1 hrest
          exact .broke hbody
        | continued =>
          obtain ⟨rfl, rfl⟩ := Eval.attempt_pure.1 hrest
          exact .continued hbody
        | returned w =>
          obtain ⟨rfl, rfl⟩ := Eval.attempt_pure.1 hrest
          exact .returned hbody
    · intro h
      cases h with
      | next hbody hrest => exact Or.inr ⟨_, _, hbody, ih.2 hrest⟩
      | broke hbody => exact Or.inr ⟨_, _, hbody, Eval.attempt_pure.2 ⟨rfl, rfl⟩⟩
      | continued hbody => exact Or.inr ⟨_, _, hbody, Eval.attempt_pure.2 ⟨rfl, rfl⟩⟩
      | returned hbody => exact Or.inr ⟨_, _, hbody, Eval.attempt_pure.2 ⟨rfl, rfl⟩⟩
      | failed hbody => exact Or.inl ⟨_, hbody, rfl⟩

/-- Falling through reads no test. -/
theorem fallThrough_congr {cases cases' : List Case}
    (h : cases.map Prod.snd = cases'.map Prod.snd) :
    fallThrough ev cases = fallThrough ev cases' := by
  induction cases generalizing cases' with
  | nil =>
    have hnil : cases' = [] := List.map_eq_nil_iff.1 h.symm
    rw [hnil]
  | cons case rest ih =>
    cases cases' with
    | nil => cases h
    | cons case' rest' =>
      rw [List.map_cons, List.map_cons] at h
      obtain ⟨hbody, hrest⟩ := List.cons.inj h
      rw [fallThrough, fallThrough, hbody, ih hrest]

/-! ## Tests -/

/-- A default is found as soon as it is reached. -/
theorem casesRun_default :
    CasesRun ev v s ((none, body) :: rest) r s' ↔
      FallsThrough ev s (body :: rest.map Prod.snd) r s' := by
  constructor
  · intro h
    cases h with
    | notFound hpassed => cases hpassed
    | @testFailed before _ _ _ _ _ _ hcases hpassed _ =>
      cases before with
      | nil => cases hcases
      | cons case before =>
        cases hcases
        cases hpassed
    | @found before _ _ _ _ _ _ _ hcases hpassed hfound hbodies =>
      cases before with
      | nil =>
        cases hcases
        cases hpassed
        cases hfound
        exact hbodies
      | cons case before =>
        cases hcases
        cases hpassed
  · intro h
    exact .found (List.nil_append _).symm .nil .default h

/-- A case with a test: its test fails, or its bodies run, or it leaves it to the others. -/
theorem casesRun_test :
    CasesRun ev v s ((some test, body) :: rest) r s' ↔
      (∃ failure, ev.expr test s = .error failure s' ∧ r = .error failure) ∨
      ∃ t s₁, ev.expr test s = .ok t s₁ ∧
        if v.strictEquals t = true then FallsThrough ev s₁ (body :: rest.map Prod.snd) r s'
        else CasesRun ev v s₁ rest r s' := by
  constructor
  · intro h
    cases h with
    | notFound hpassed =>
      cases hpassed with
      | cons htest hdiffers hrest =>
        refine .inr ⟨_, _, htest, ?_⟩
        rw [if_neg (Bool.eq_false_iff.1 hdiffers)]
        exact .notFound hrest
    | @testFailed before _ _ _ _ _ _ hcases hpassed hfails =>
      cases before with
      | nil =>
        cases hcases
        cases hpassed
        exact .inl ⟨_, hfails, rfl⟩
      | cons case before =>
        cases hcases
        cases hpassed with
        | cons htest hdiffers hrest =>
          refine .inr ⟨_, _, htest, ?_⟩
          rw [if_neg (Bool.eq_false_iff.1 hdiffers)]
          exact .testFailed rfl hrest hfails
    | @found before _ _ _ _ _ _ _ hcases hpassed hfound hbodies =>
      cases before with
      | nil =>
        cases hcases
        cases hpassed
        cases hfound with
        | equal htest hequal =>
          refine .inr ⟨_, _, htest, ?_⟩
          rw [if_pos hequal]
          exact hbodies
      | cons case before =>
        cases hcases
        cases hpassed with
        | cons htest hdiffers hrest =>
          refine .inr ⟨_, _, htest, ?_⟩
          rw [if_neg (Bool.eq_false_iff.1 hdiffers)]
          exact .found rfl hrest hfound hbodies
  · rintro (⟨failure, hfails, rfl⟩ | ⟨t, s₁, htest, h⟩)
    · exact .testFailed (List.nil_append _).symm .nil hfails
    · by_cases hequal : v.strictEquals t = true
      · rw [if_pos hequal] at h
        exact .found (List.nil_append _).symm .nil (.equal htest hequal) h
      · rw [if_neg hequal] at h
        have hdiffers : v.strictEquals t = false := Bool.eq_false_iff.2 hequal
        cases h with
        | notFound hpassed => exact .notFound (.cons htest hdiffers hpassed)
        | testFailed hcases hpassed hfails =>
          subst hcases
          exact .testFailed List.cons_append.symm (.cons htest hdiffers hpassed) hfails
        | found hcases hpassed hfound hbodies =>
          subst hcases
          exact .found List.cons_append.symm (.cons htest hdiffers hpassed) hfound hbodies

/-- The cases, as they are described by `CasesRun`. By induction on the cases. -/
theorem attempt_chooseCase :
    (chooseCase ev v cases).attempt s = .ok r s' ↔ CasesRun ev v s cases r s' := by
  induction cases generalizing s with
  | nil =>
    have hdone : (chooseCase ev v []).attempt s = .ok r s' ↔ r = .ok .done ∧ s' = s :=
      Eval.attempt_pure
    rw [hdone]
    constructor
    · rintro ⟨rfl, rfl⟩
      exact .notFound .nil
    · intro h
      cases h with
      | notFound hpassed =>
        cases hpassed
        exact ⟨rfl, rfl⟩
      | testFailed hcases | found hcases => simp at hcases
  | cons case rest ih =>
    obtain ⟨test, body⟩ := case
    cases test with
    | none =>
      rw [chooseCase, attempt_fallThrough, casesRun_default]
      rfl
    | some test =>
      rw [chooseCase, Eval.attempt_bind, casesRun_test]
      have hrest : ∀ (t : Value) (s₁ : State),
          (if v.strictEquals t then fallThrough ev ((some test, body) :: rest)
            else chooseCase ev v rest).attempt s₁ = .ok r s' ↔
          if v.strictEquals t = true then FallsThrough ev s₁ (body :: rest.map Prod.snd) r s'
            else CasesRun ev v s₁ rest r s' := by
        intro t s₁
        by_cases hequal : v.strictEquals t = true
        · rw [if_pos hequal, if_pos hequal]
          exact attempt_fallThrough
        · rw [if_neg hequal, if_neg hequal]
          exact ih
      simp only [hrest]

/-- A `switch` statement, as it is described by `SwitchRuns`. -/
theorem attempt_switch {discriminant : Expr} :
    (switch ev discriminant cases).attempt s = .ok r s' ↔
      SwitchRuns ev discriminant cases s r s' := by
  rw [switch, Eval.attempt_bind]
  constructor
  · rintro (⟨failure, hdiscriminant, rfl⟩ | ⟨v, s₁, hdiscriminant, hrun⟩)
    · exact .failed hdiscriminant
    · obtain ⟨s₂, hcases, rfl⟩ := Eval.attempt_inBlock.1 hrun
      exact .ran hdiscriminant (attempt_chooseCase.1 hcases)
  · intro h
    cases h with
    | failed hdiscriminant => exact .inl ⟨_, hdiscriminant, rfl⟩
    | ran hdiscriminant hcases =>
      have hrun := attempt_chooseCase.2 hcases
      exact .inr ⟨_, _, hdiscriminant, Eval.attempt_inBlock.2 ⟨_, hrun, rfl⟩⟩

/-! ## What is not evaluated -/

/-- Cases that are passed over leave it to what comes after them. By induction on the cases. -/
theorem PassesOver.chooseCase_append (hpassed : PassesOver ev v s before s₁) (rest : List Case) :
    chooseCase ev v (before ++ rest) s = chooseCase ev v rest s₁ := by
  induction hpassed with
  | nil => rfl
  | cons htest hdiffers _ ih =>
    rw [List.cons_append, chooseCase, Eval.bind_apply, htest]
    dsimp only
    rw [if_neg (Bool.eq_false_iff.1 hdiffers), ih]

/-- The case that is found falls through, with whatever comes after it. -/
theorem Found.chooseCase_cons {test : Option Expr} (hfound : Found ev v s test s₁) (body : List Stmt)
    (rest : List Case) :
    chooseCase ev v ((test, body) :: rest) s = fallThrough ev ((test, body) :: rest) s₁ := by
  cases hfound with
  | default => rfl
  | equal htest hequal =>
    rw [chooseCase, Eval.bind_apply, htest]
    dsimp only
    rw [if_pos hequal]

/-! ## One pass -/

/-- Once a case was found, a single pass falls through. By induction on the cases. -/
theorem caseLoop_found : caseLoop ev v true cases = fallThrough ev cases := by
  induction cases with
  | nil => rfl
  | cons case rest ih =>
    obtain ⟨test, body⟩ := case
    rw [caseLoop, fallThrough, ← ih]
    rfl

/-- Before a case was found, a single pass looks for it. By induction on the cases. -/
theorem caseLoop_searching : caseLoop ev v false cases = chooseCase ev v cases := by
  induction cases with
  | nil => rfl
  | cons case rest ih =>
    obtain ⟨test, body⟩ := case
    cases test with
    | none =>
      rw [chooseCase, ← caseLoop_found (v := v)]
      rfl
    | some test =>
      funext s
      have henters : entersCase ev v false (some test) =
          (ev.expr test >>= fun t => pure (v.strictEquals t)) := rfl
      rw [caseLoop, chooseCase, Eval.bind_apply, Eval.bind_apply, henters, Eval.bind_apply]
      cases ev.expr test s with
      | ok t s₁ =>
        show (if v.strictEquals t = true then _ else _ : Eval Completion) s₁ = _
        dsimp only
        by_cases hequal : v.strictEquals t = true
        · rw [if_pos hequal, if_pos hequal, ← caseLoop_found (v := v)]
          rfl
        · rw [if_neg hequal, if_neg hequal, ih]
      | error failure s₁ | exhausted => rfl

/-! ## An end -/

theorem CasesEnd.tail {case : Case} (h : CasesEnd ev (case :: rest)) : CasesEnd ev rest :=
  ⟨fun e body hmem => h.test e body (List.mem_cons_of_mem _ hmem),
    fun test body hmem => h.body test body (List.mem_cons_of_mem _ hmem)⟩

/-- The bodies are evaluated to an end. By induction on the cases. -/
theorem CasesEnd.fallThrough (h : CasesEnd ev cases) (s : State) :
    Rule.fallThrough ev cases s ≠ .exhausted := by
  induction cases generalizing s with
  | nil => exact Eval.pure_ne_exhausted
  | cons case rest ih =>
    obtain ⟨test, body⟩ := case
    rw [Rule.fallThrough]
    refine Eval.bind_ne_exhausted (h.body test body List.mem_cons_self s) fun c s₁ _ => ?_
    cases c with
    | normal v => exact ih h.tail s₁
    | broke | continued | returned => exact Eval.pure_ne_exhausted

/-- The cases are evaluated to an end. By induction on the cases. -/
theorem CasesEnd.chooseCase (h : CasesEnd ev cases) (v : Value) (s : State) :
    Rule.chooseCase ev v cases s ≠ .exhausted := by
  induction cases generalizing s with
  | nil => exact Eval.pure_ne_exhausted
  | cons case rest ih =>
    obtain ⟨test, body⟩ := case
    cases test with
    | none => exact h.fallThrough s
    | some test =>
      rw [Rule.chooseCase]
      refine Eval.bind_ne_exhausted (h.test test body List.mem_cons_self s) fun t s₁ _ => ?_
      by_cases hequal : v.strictEquals t = true
      · rw [if_pos hequal]
        exact h.fallThrough s₁
      · rw [if_neg hequal]
        exact ih h.tail s₁

/-- A `switch` statement whose parts are evaluated to an end has a run from every state. -/
theorem CasesEnd.exists_switchRuns {discriminant : Expr} (h : CasesEnd ev cases)
    (hdiscriminant : ∀ s, ev.expr discriminant s ≠ .exhausted) (s : State) :
    ∃ r s', SwitchRuns ev discriminant cases s r s' := by
  have hend : switch ev discriminant cases s ≠ .exhausted :=
    Eval.bind_ne_exhausted (hdiscriminant s) fun v s₁ _ =>
      Eval.inBlock_ne_exhausted (h.chooseCase v s₁.enterBlock)
  cases hrun : switch ev discriminant cases s with
  | ok c s' => exact ⟨.ok c, s', attempt_switch.1 (Eval.attempt_eq_ok_ok.2 hrun)⟩
  | error failure s' =>
    exact ⟨.error failure, s', attempt_switch.1 (Eval.attempt_eq_ok_error.2 hrun)⟩
  | exhausted => exact absurd hrun hend

end Rule

/-- What a `switch` statement does, for every discriminant, for all cases, with a default anywhere,
and from every state. There is a result exactly if there is a run with this result and this final
state: the discriminant is evaluated once; then, inside of one new scope, the tests up to the case
that is found, once each and in order; then the bodies from this case on, until one does not
complete normally. A `break` ends the statement normally, any other completion and every failure is
passed on, and nothing is evaluated after it. There is such a run if all parts are evaluated to an
end. A single pass that remembers whether a case was found does the same. Tests after the case that
is found are never evaluated: the outcome stays as it is if there are other tests instead, or none.
As any other statement, a `switch` statement does nothing if the evaluation was interrupted before,
and gives its position to an error that has none. -/
theorem switch_finds_then_falls_through (discriminant : Expr) (cases : List Rule.Case) :
    (∀ ev s r s', (Rule.switch ev discriminant cases).attempt s = .ok r s' ↔
      Rule.SwitchRuns ev discriminant cases s r s') ∧
    (∀ ev, (∀ s, ev.expr discriminant s ≠ .exhausted) → Rule.CasesEnd ev cases →
      ∀ s, ∃ r s', Rule.SwitchRuns ev discriminant cases s r s') ∧
    (∀ ev, Rule.switch ev discriminant cases = do
      let v ← ev.expr discriminant
      Eval.inBlock (Rule.caseLoop ev v false cases)) ∧
    (∀ ev before test body after others v s s₀ s₁ s₂, cases = before ++ (test, body) :: after →
      others.map Prod.snd = after.map Prod.snd → ev.expr discriminant s = .ok v s₀ →
      Rule.PassesOver ev v s₀.enterBlock before s₁ → Rule.Found ev v s₁ test s₂ →
      Rule.switch ev discriminant (before ++ (test, body) :: others) s =
        Rule.switch ev discriminant cases s) ∧
    ∀ ctx fuel span s, execStmt ctx (fuel + 1) (.node span (.switch discriminant cases)) s =
      if s.interrupted then .error .interrupted s
      else Eval.locating span (do
        Eval.emitIf ctx.trace (.statement "switch" span)
        Rule.switch (Evaluator.level ctx fuel) discriminant cases) s := by
  refine ⟨fun ev s r s' => Rule.attempt_switch,
    fun ev hdiscriminant hcases s => hcases.exists_switchRuns hdiscriminant s, ?_, ?_,
    fun ctx fuel span s => rfl⟩
  · intro ev
    simp only [Rule.caseLoop_searching]
    rfl
  · intro ev before test body after others v s s₀ s₁ s₂ hcases hothers hdiscriminant hpassed hfound
    have hbodies : Rule.fallThrough ev ((test, body) :: others) =
        Rule.fallThrough ev ((test, body) :: after) := by
      apply Rule.fallThrough_congr
      rw [List.map_cons, List.map_cons, hothers]
    have hchoose : Rule.chooseCase ev v (before ++ (test, body) :: others) s₀.enterBlock =
        Rule.chooseCase ev v cases s₀.enterBlock := by
      rw [hcases, hpassed.chooseCase_append, hpassed.chooseCase_append, hfound.chooseCase_cons,
        hfound.chooseCase_cons, hbodies]
    rw [Rule.switch, Rule.switch, Eval.bind_apply, Eval.bind_apply, hdiscriminant]
    show (Rule.chooseCase ev v _ s₀.enterBlock).mapState _ =
      (Rule.chooseCase ev v _ s₀.enterBlock).mapState _
    rw [hchoose]

/-- Cases with a default in front of the one whose test is equal to `true`. -/
def defaultBetween : List Rule.Case :=
  [(some (Expr.of (.literal (.bool false))), []), (none, []),
    (some (Expr.of (.literal (.bool true))), [Stmt.of .breakLoop])]

/-- The default is reached first, and falls through into the last case, whose test might as well be
a name that nothing has. -/
theorem switch_finds_then_falls_through_defaultBetween :
    (∀ s, (Evaluator.level plainContext 2).expr (Expr.of (.literal (.bool true))) s ≠ .exhausted) ∧
      Rule.CasesEnd (Evaluator.level plainContext 2) defaultBetween ∧
      (∃ r s', Rule.SwitchRuns (Evaluator.level plainContext 2) (Expr.of (.literal (.bool true)))
        defaultBetween {} r s') ∧
      Rule.switch (Evaluator.level plainContext 2) (Expr.of (.literal (.bool true)))
          [(some (Expr.of (.literal (.bool false))), []), (none, []),
            (some (Expr.of (.ident "missing")), [Stmt.of .breakLoop])] {} =
        Rule.switch (Evaluator.level plainContext 2) (Expr.of (.literal (.bool true)))
          defaultBetween {} := by
  have hliteral : ∀ (b : Bool) (s : State), (Evaluator.level plainContext 2).expr
      (Expr.of (.literal (.bool b))) s =
        if s.interrupted then .error .interrupted s else .ok (.bool b) s := fun b s => rfl
  have htest : ∀ (b : Bool) (s : State), (Evaluator.level plainContext 2).expr
      (Expr.of (.literal (.bool b))) s ≠ .exhausted := by
    intro b s
    rw [hliteral]
    split <;> exact fun h => nomatch h
  have hbreak : ∀ s, (Evaluator.level plainContext 2).stmts [Stmt.of .breakLoop] s ≠ .exhausted := by
    rintro ⟨env, store, queue, events, exports, interrupted⟩
    cases interrupted <;> exact fun h => nomatch h
  have hnil : ∀ s, (Evaluator.level plainContext 2).stmts [] s ≠ .exhausted :=
    fun s => Eval.pure_ne_exhausted
  have hend : Rule.CasesEnd (Evaluator.level plainContext 2) defaultBetween := by
    constructor
    · intro e body hmem
      simp only [defaultBetween, List.mem_cons, Prod.mk.injEq, Option.some.injEq] at hmem
      rcases hmem with ⟨rfl, -⟩ | ⟨⟨⟩, -⟩ | ⟨rfl, -⟩ | hmem
      · exact htest false
      · exact htest true
      · cases hmem
    · intro test body hmem
      simp only [defaultBetween, List.mem_cons, Prod.mk.injEq] at hmem
      rcases hmem with ⟨-, rfl⟩ | ⟨-, rfl⟩ | ⟨-, rfl⟩ | hmem
      · exact hnil
      · exact hnil
      · exact hbreak
      · cases hmem
  obtain ⟨-, hruns, -, htests, -⟩ :=
    switch_finds_then_falls_through (Expr.of (.literal (.bool true))) defaultBetween
  refine ⟨htest true, hend, hruns _ (htest true) hend {}, ?_⟩
  exact htests _ [(some (Expr.of (.literal (.bool false))), [])] none [] _
    [(some (Expr.of (.ident "missing")), [Stmt.of .breakLoop])] _ _ _ _ _ rfl rfl (hliteral true _)
    (.cons (hliteral false _) rfl .nil) .default

end ReactiveScript
