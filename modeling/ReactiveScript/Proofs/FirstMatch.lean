import ReactiveScript.Proofs.Returns

/-!
# The first `when` that holds

In a list of statements a `when` whose guard holds is the last thing that happens: its body runs as
a block and the list completes as that block does. `Evaluator.GoesThrough` describes how a list gets
as far as some position, and a `when` *fires* where its guard holds then. In lists in which no
`when` fires, a `when` does no more than an `if` with nothing to do, and an `otherwise` no more than
a block.
-/

namespace ReactiveScript

open Interpreter (execStmts execBlock)

namespace Evaluator

/-- The statements of a list are executed in order, each to its normal end. A `when` among them
contributes its guard, which does not hold. -/
inductive GoesThrough (ev : Evaluator) : State → List Stmt → State → Prop where
  | nil {s : State} : GoesThrough ev s [] s
  | skipped {span : Span} {test : Expr} {body rest : List Stmt} {s s₁ s' : State} {v : Value}
    (hgo : s.interrupted = false) (hguard : Eval.locating span (ev.expr test) s = .ok v s₁)
    (hfalse : v.isTruthy = false) (hrest : GoesThrough ev s₁ rest s') :
    GoesThrough ev s (.node span (.whenGuard test body) :: rest) s'
  | ran {st : Stmt} {rest : List Stmt} {s s₁ s' : State} {v : Value} (hwhen : st.isWhen = false)
    (hrun : ev.stmt st s = .ok (.normal v) s₁) (hrest : GoesThrough ev s₁ rest s') :
    GoesThrough ev s (st :: rest) s'

/-- The `when` behind the statements `before` fires, with the body `action` and from the state
`s₂`. -/
def FiresAfter (ev : Evaluator) (body : List Stmt) (s : State) (before action : List Stmt)
    (s₂ : State) : Prop :=
  ∃ span test after s₁ v, body = before ++ .node span (.whenGuard test action) :: after ∧
    ev.GoesThrough s before s₁ ∧ s₁.interrupted = false ∧
    Eval.locating span (ev.expr test) s₁ = .ok v s₂ ∧ v.isTruthy = true

variable {ev ev' : Evaluator} {s s₁ s₂ s₃ : State} {before action body : List Stmt}

/-! ## What fires, and what is executed -/

theorem step_when_eq (ev : Evaluator) (last : Value) (span : Span) (test : Expr)
    (action : List Stmt) :
    ev.step last (.node span (.whenGuard test action)) = Eval.checkInterrupt >>= fun _ =>
      Eval.locating span (ev.expr test) >>= fun guard =>
        if guard.isTruthy then ev.block action >>= fun c => pure (.leave c)
        else pure (.next last) :=
  rfl

/-- A `when` that is not interrupted, by what its guard comes to. -/
theorem step_when {span : Span} {test : Expr} {v : Value} (hgo : s.interrupted = false)
    (hguard : Eval.locating span (ev.expr test) s = .ok v s₁) (last : Value) :
    ev.step last (.node span (.whenGuard test action)) s =
      if v.isTruthy then (ev.block action >>= fun c => pure (.leave c)) s₁
      else .ok (.next last) s₁ := by
  rw [step_when_eq, Eval.checkInterrupt_bind, hgo, if_neg Bool.false_ne_true, Eval.bind_apply,
    hguard]
  by_cases hv : v.isTruthy = true
  · simp only [hv, if_true]
  · simp only [hv, Bool.false_eq_true, if_false]
    rfl

/-- A list goes on where it got to. -/
theorem GoesThrough.stmtsFrom (h : ev.GoesThrough s before s₁) (last : Value) (rest : List Stmt) :
    ∃ last', ev.stmtsFrom last (before ++ rest) s = ev.stmtsFrom last' rest s₁ := by
  induction h generalizing last with
  | nil => exact ⟨last, rfl⟩
  | skipped hgo hguard hfalse _ ih =>
    obtain ⟨last', hrest⟩ := ih last
    refine ⟨last', ?_⟩
    rw [List.cons_append, stmtsFrom_cons, Eval.bind_apply, step_when hgo hguard, hfalse]
    exact hrest
  | @ran st _ s s₁ _ v hwhen hrun _ ih =>
    obtain ⟨last', hrest⟩ := ih (if st.isExpression then v else last)
    refine ⟨last', ?_⟩
    rw [List.cons_append, stmtsFrom_cons, Eval.bind_apply, step_eq _ hwhen, Eval.bind_apply, hrun]
    exact hrest

/-- A list with a `when` that fires comes to what its body comes to. -/
theorem FiresAfter.stmts (h : ev.FiresAfter body s before action s₂) :
    ev.stmts body s = ev.block action s₂ := by
  obtain ⟨span, test, after, s₁, v, rfl, hbefore, hgo, hguard, hv⟩ := h
  obtain ⟨last, hrest⟩ := hbefore.stmtsFrom .null (.node span (.whenGuard test action) :: after)
  rw [Evaluator.stmts, hrest, stmtsFrom_cons, Eval.bind_apply, step_when hgo hguard, if_pos hv,
    Eval.bind_apply]
  cases ev.block action s₂ <;> rfl

/-- No two `when` of a list fire. By induction on what the list goes through before one of them. -/
theorem GoesThrough.unique {before' action' after after' : List Stmt} {span span' : Span}
    {test test' : Expr} {s₁' s₂' : State} {v v' : Value} (h : ev.GoesThrough s before s₁)
    (hguard : Eval.locating span (ev.expr test) s₁ = .ok v s₂) (hv : v.isTruthy = true)
    (h' : ev.GoesThrough s before' s₁')
    (hguard' : Eval.locating span' (ev.expr test') s₁' = .ok v' s₂') (hv' : v'.isTruthy = true)
    (hbody : before ++ .node span (.whenGuard test action) :: after =
      before' ++ .node span' (.whenGuard test' action') :: after') :
    before = before' ∧ action = action' ∧ s₂ = s₂' := by
  induction h generalizing before' with
  | nil =>
    cases h' with
    | nil =>
      cases hbody
      cases hguard.symm.trans hguard'
      exact ⟨rfl, rfl, rfl⟩
    | skipped hgo₁ hguard₁ hfalse _ =>
      cases hbody
      cases hguard.symm.trans hguard₁
      rw [hv] at hfalse
      cases hfalse
    | ran hwhen _ _ =>
      cases hbody
      cases hwhen
  | skipped hgo₁ hguard₁ hfalse _ ih =>
    cases h' with
    | nil =>
      cases hbody
      cases hguard₁.symm.trans hguard'
      rw [hv'] at hfalse
      cases hfalse
    | skipped hgo₂ hguard₂ hfalse₂ hrest =>
      injection hbody with hhead htail
      cases hhead
      cases hguard₁.symm.trans hguard₂
      obtain ⟨rfl, rfl, rfl⟩ := ih hguard hrest htail
      exact ⟨rfl, rfl, rfl⟩
    | ran hwhen _ _ =>
      injection hbody with hhead _
      subst hhead
      cases hwhen
  | ran hwhen hrun _ ih =>
    cases h' with
    | nil =>
      cases hbody
      cases hwhen
    | skipped _ _ _ _ =>
      injection hbody with hhead _
      subst hhead
      cases hwhen
    | ran hwhen₂ hrun₂ hrest =>
      injection hbody with hhead htail
      subst hhead
      cases hrun.symm.trans hrun₂
      obtain ⟨rfl, rfl, rfl⟩ := ih hguard hrest htail
      exact ⟨rfl, rfl, rfl⟩

/-- An evaluator that differs in one part only goes through the same, unless the part is one of
those that are executed on the way. -/
theorem GoesThrough.sameExcept {part : Nested} {t : State} (hsame : ev.SameExcept part t ev')
    (h : ev.GoesThrough s before s₁)
    (hother : ∀ first st rest s₃, before = first ++ st :: rest → st.isWhen = false →
      ev.GoesThrough s first s₃ → (part, t) ≠ (.stmt st, s₃)) :
    ev'.GoesThrough s before s₁ := by
  induction h with
  | nil => exact .nil
  | @skipped span test body rest s s₁ s' v hgo hguard hfalse _ ih =>
    have hguard' : Eval.locating span (ev'.expr test) s = .ok v s₁ := by
      rw [hsame.expr]
      exact hguard
    refine .skipped hgo hguard' hfalse (ih ?_)
    intro first st rest' s₃ hrest hwhen hfirst
    refine hother (.node span (.whenGuard test body) :: first) st rest' s₃ ?_ hwhen
      (.skipped hgo hguard hfalse hfirst)
    rw [hrest, List.cons_append]
  | @ran st rest s s₁ s' v hwhen hrun _ ih =>
    have hne := (hother [] st rest s rfl hwhen .nil).symm
    have hrun' : ev'.stmt st s = .ok (.normal v) s₁ :=
      (hsame.nested (p := .stmt st) hne).trans hrun
    refine .ran hwhen hrun' (ih ?_)
    intro first st' rest' s₃ hrest hwhen' hfirst
    refine hother (st :: first) st' rest' s₃ ?_ hwhen' (.ran hwhen hrun hfirst)
    rw [hrest, List.cons_append]

/-- Where a `when` fires, its body is executed, from the state that its guard left, and before it
statements other than `when` that the list has gone through to; and that is all. -/
theorem FiresAfter.runs {part : Nested} {t : State} (h : ev.FiresAfter body s before action s₂)
    (hruns : ev.Runs (fun ev => ev.stmts body) s part t) :
    (part, t) = (.block action, s₂) ∨ ∃ first st rest, before = first ++ st :: rest ∧
      st.isWhen = false ∧ ev.GoesThrough s first t ∧ part = .stmt st := by
  by_contra hnone
  rw [not_or] at hnone
  obtain ⟨haction, hfirst⟩ := hnone
  obtain ⟨ev', hsame, hne⟩ := hruns
  refine hne ?_
  have hstmts := h.stmts
  obtain ⟨span, test, after, s₁, v, hbody, hbefore, hgo, hguard, hv⟩ := h
  have hbefore' : ev'.GoesThrough s before s₁ := by
    refine hbefore.sameExcept hsame fun first st rest s₃ hsplit hwhen hreached hpart => ?_
    cases hpart
    exact hfirst ⟨first, st, rest, hsplit, hwhen, hreached, rfl⟩
  have hguard' : Eval.locating span (ev'.expr test) s₁ = .ok v s₂ := by
    rw [hsame.expr]
    exact hguard
  have hfires' : ev'.FiresAfter body s before action s₂ :=
    ⟨span, test, after, s₁, v, hbody, hbefore', hgo, hguard', hv⟩
  show ev'.stmts body s = ev.stmts body s
  rw [hfires'.stmts, hstmts]
  exact hsame.nested (p := .block action) (Ne.symm haction)

/-- A list that goes on after a `when` has found that its guard does not hold. -/
theorem step_when_next {span : Span} {test : Expr} {last last' : Value}
    (h : ev.step last (.node span (.whenGuard test action)) s = .ok (.next last') s₁) :
    s.interrupted = false ∧
      ∃ v, Eval.locating span (ev.expr test) s = .ok v s₁ ∧ v.isTruthy = false := by
  rw [step_when_eq, Eval.checkInterrupt_bind] at h
  by_cases hgo : s.interrupted = true
  · rw [if_pos hgo] at h
    cases h
  · rw [if_neg hgo] at h
    obtain ⟨v, s₂, hguard, hrest⟩ := Eval.bind_eq_ok h
    by_cases hv : v.isTruthy = true
    · rw [if_pos hv] at hrest
      obtain ⟨c, s₃, _, hpure⟩ := Eval.bind_eq_ok hrest
      cases hpure
    · rw [if_neg hv] at hrest
      cases hrest
      exact ⟨Bool.not_eq_true _ ▸ hgo, v, hguard, Bool.not_eq_true _ ▸ hv⟩

/-- What fires in the rest of a list fires in the list. -/
theorem FiresAfter.cons {st : Stmt} {last last' : Value}
    (h : ev.FiresAfter body s₁ before action s₂)
    (hstep : ev.step last st s = .ok (.next last') s₁) :
    ev.FiresAfter (st :: body) s (st :: before) action s₂ := by
  obtain ⟨span, test, after, s₃, v, rfl, hbefore, hgo, hguard, hv⟩ := h
  refine ⟨span, test, after, s₃, v, rfl, ?_, hgo, hguard, hv⟩
  cases hwhen : st.isWhen with
  | true =>
    obtain ⟨span', kind⟩ := st
    cases kind with
    | whenGuard test' action' =>
      obtain ⟨hrunning, w, hguard', hfalse⟩ := step_when_next hstep
      exact .skipped hrunning hguard' hfalse hbefore
    | _ => cases hwhen
  | false =>
    rw [step_eq _ hwhen] at hstep
    obtain ⟨c, s₄, hrun, hpure⟩ := Eval.bind_eq_ok hstep
    cases c with
    | normal w =>
      cases hpure
      exact .ran hwhen hrun hbefore
    | broke | continued | returned => cases hpure

/-- The body of a `when` is executed only where the `when` fires. By induction on the list. -/
theorem firesAfter_of_runs {t : State}
    (hruns : ev.Runs (fun ev => ev.stmts body) s (.block action) t) :
    ∃ before, ev.FiresAfter body s before action t := by
  by_contra hnone
  rw [not_exists] at hnone
  obtain ⟨ev', hsame, hne⟩ := hruns
  refine hne ?_
  clear hne
  show ev'.stmtsFrom .null body s = ev.stmtsFrom .null body s
  generalize Value.null = last
  induction body generalizing last s with
  | nil => rfl
  | cons st body ih =>
    have hstep : ev'.step last st s = ev.step last st s := by
      cases hwhen : st.isWhen with
      | true =>
        obtain ⟨span, kind⟩ := st
        cases kind with
        | whenGuard test action' =>
          rw [step_when_eq, step_when_eq, hsame.expr, Eval.checkInterrupt_bind,
            Eval.checkInterrupt_bind, Eval.bind_apply, Eval.bind_apply]
          by_cases hgo : s.interrupted = true
          · rw [if_pos hgo, if_pos hgo]
          · rw [if_neg hgo, if_neg hgo]
            cases hguard : Eval.locating span (ev.expr test) s with
            | ok v s₁ =>
              dsimp only
              by_cases hv : v.isTruthy = true
              · -- The `when` fires here, so that its body is another one or starts elsewhere.
                have hother : (Nested.block action', s₁) ≠ (.block action, t) := by
                  intro heq
                  cases heq
                  exact hnone [] ⟨span, test, body, s, v, rfl, .nil, Bool.not_eq_true _ ▸ hgo,
                    hguard, hv⟩
                have hblock : ev'.block action' s₁ = ev.block action' s₁ :=
                  hsame.nested (p := .block action') hother
                rw [if_pos hv, if_pos hv, Eval.bind_apply, Eval.bind_apply, hblock]
              · rw [if_neg hv, if_neg hv]
            | error | exhausted => rfl
        | _ => cases hwhen
      | false =>
        have hstmt : ev'.stmt st s = ev.stmt st s :=
          hsame.nested (p := .stmt st) fun heq => by cases heq
        rw [step_eq _ hwhen, step_eq _ hwhen, Eval.bind_apply, Eval.bind_apply, hstmt]
    rw [stmtsFrom_cons, stmtsFrom_cons, Eval.bind_apply, Eval.bind_apply, hstep]
    cases hs : ev.step last st s with
    | ok next s₁ =>
      cases next with
      | next last' =>
        have hrest : ∀ before, ¬ ev.FiresAfter body s₁ before action t :=
          fun before hfires => hnone (st :: before) (hfires.cons hs)
        exact ih hrest last'
      | leave c => rfl
    | error | exhausted => rfl

end Evaluator

/-! ## Lists in which no `when` fires -/

/-- An `if` with nothing to do in place of a `when`, and a block in place of an `otherwise`. -/
def Stmt.withoutWhen : Stmt → Stmt
  | .node span (.whenGuard test _) =>
    .node span (.ifElse test (.node span (.block [])) none)
  | .node span (.otherwise body) => .node span (.block body)
  | st => st

namespace Evaluator

variable {ctx : Context} {n : Nat} {s : State}

/-- Lists whose statements ask for the same, as long as the lists go on, come to the same. -/
theorem stmtsFrom_extends (ev ev' : Evaluator) (f f' : Stmt → Stmt)
    (Inv : List Stmt → State → Prop)
    (hstep : ∀ st rest last s, Inv (st :: rest) s →
      (ev.step last (f st) s = .exhausted ∨
        ev'.step last (f' st) s = ev.step last (f st) s) ∧
      ∀ last' s₁, ev.step last (f st) s = .ok (.next last') s₁ → Inv rest s₁)
    (body : List Stmt) (last : Value) (s : State) (h : Inv body s) :
    ev.stmtsFrom last (body.map f) s = .exhausted ∨
      ev'.stmtsFrom last (body.map f') s = ev.stmtsFrom last (body.map f) s := by
  induction body generalizing last s with
  | nil => exact Or.inr rfl
  | cons st rest ih =>
    obtain ⟨hsame, hnext⟩ := hstep st rest last s h
    rw [List.map_cons, List.map_cons, stmtsFrom_cons, stmtsFrom_cons, Eval.bind_apply,
      Eval.bind_apply]
    rcases hsame with hexhausted | hsame
    · rw [hexhausted]
      exact Or.inl rfl
    · rw [hsame]
      cases hs : ev.step last (f st) s with
      | ok next s₁ =>
        cases next with
        | next last' => exact ih last' s₁ (hnext last' s₁ hs)
        | leave c => exact Or.inr rfl
      | error | exhausted => exact Or.inr rfl

/-- What a `when` does whose guard does not hold. -/
def skip (ev : Evaluator) (last : Value) (span : Span) (test : Expr) : Eval Step := do
  Eval.checkInterrupt
  let _ ← Eval.locating span (ev.expr test)
  pure (.next last)

/-- A guard does not hold, if it comes to anything and is not interrupted before. -/
def Holdless (ev : Evaluator) (span : Span) (test : Expr) (s : State) : Prop :=
  s.interrupted = false → ∀ v s₁, Eval.locating span (ev.expr test) s = .ok v s₁ →
    v.isTruthy = false

theorem step_when_of_holdless {ev : Evaluator} {span : Span} {test : Expr}
    (h : ev.Holdless span test s) (action : List Stmt) (last : Value) :
    ev.step last (.node span (.whenGuard test action)) s = ev.skip last span test s := by
  rw [step_when_eq, skip, Eval.checkInterrupt_bind, Eval.checkInterrupt_bind]
  by_cases hgo : s.interrupted = true
  · rw [if_pos hgo, if_pos hgo]
  · rw [if_neg hgo, if_neg hgo, Eval.bind_apply, Eval.bind_apply]
    cases hguard : Eval.locating span (ev.expr test) s with
    | ok v s₁ =>
      have hv := h (Bool.not_eq_true _ ▸ hgo) v s₁ hguard
      simp only [hv, Bool.false_eq_true, if_false]
    | error | exhausted => rfl

/-- An `if` with a condition that does not hold evaluates the condition. -/
theorem stmt_ifElse_of_holdless (htrace : ctx.trace = false) {span : Span} {test : Expr}
    (h : (level ctx n).Holdless span test s) (consequent : Stmt) :
    (level ctx (n + 1)).stmt (.node span (.ifElse test consequent none)) s =
      (Eval.checkInterrupt >>= fun _ => Eval.locating span ((level ctx n).expr test) >>= fun _ =>
        pure .done) s := by
  show Rule.stmt ctx (level ctx n) _ s = _
  rw [Rule.stmt_eq_executing, State.executing_of_trace htrace, Eval.checkInterrupt_bind]
  by_cases hgo : s.interrupted = true
  · rw [if_pos hgo, if_pos hgo]
  · rw [if_neg hgo, if_neg hgo, Eval.bind_apply]
    have hguard := h (Bool.not_eq_true _ ▸ hgo)
    show (Rule.ifElse (level ctx n) test consequent none s).mapError (·.locate span) = _
    unfold Rule.ifElse Eval.locating at *
    rw [Eval.bind_apply]
    cases hexpr : (level ctx n).expr test s with
    | ok v s₁ =>
      have hv := hguard v s₁ (by rw [hexpr]; rfl)
      simp only [hv, Bool.false_eq_true, if_false]
      rfl
    | error | exhausted => rfl

/-- The `if` in place of a `when` does the same, one level higher. -/
theorem step_withoutWhen_of_holdless (htrace : ctx.trace = false) {span : Span} {test : Expr}
    (h : (level ctx n).Holdless span test s) (action : List Stmt) (last : Value) :
    (level ctx (n + 1)).step last (Stmt.node span (.whenGuard test action)).withoutWhen s =
      (level ctx n).skip last span test s := by
  rw [Stmt.withoutWhen, step_eq _ rfl, Eval.bind_apply, stmt_ifElse_of_holdless htrace h, skip,
    Eval.checkInterrupt_bind, Eval.checkInterrupt_bind]
  by_cases hgo : s.interrupted = true
  · rw [if_pos hgo, if_pos hgo]
  · rw [if_neg hgo, if_neg hgo, Eval.bind_apply, Eval.bind_apply]
    cases Eval.locating span ((level ctx n).expr test) s <;> rfl

/-- Statements other than `when` do what they did. -/
theorem step_withoutWhen (htrace : ctx.trace = false) {st : Stmt} (hwhen : st.isWhen = false)
    (last : Value) : (level ctx n).step last st.withoutWhen s = (level ctx n).step last st s := by
  obtain ⟨span, kind⟩ := st
  cases kind with
  | whenGuard test body => cases hwhen
  | otherwise body =>
    have hsame : (level ctx n).stmt (.node span (.block body)) s =
        (level ctx n).stmt (.node span (.otherwise body)) s := by
      cases n with
      | zero => rfl
      | succ n =>
        show Rule.stmt ctx _ _ s = Rule.stmt ctx _ _ s
        rw [Rule.stmt_eq_executing, Rule.stmt_eq_executing, State.executing_of_trace htrace,
          State.executing_of_trace htrace]
        rfl
    rw [Stmt.withoutWhen, step_eq _ rfl, step_eq _ rfl, Eval.bind_apply, Eval.bind_apply, hsame]
    rfl
  | _ => rfl

/-- With more fuel a guard that does not hold is skipped alike. -/
theorem skip_extends {k : Nat} (hle : n ≤ k) (last : Value) (span : Span) (test : Expr) :
    ((level ctx n).skip last span test).Extends ((level ctx k).skip last span test) := by
  have hguard := (Eval.Extends.congruence ctx.trace).locating (r := .expression) span
    ((related_level_of_le ctx hle).expr test)
  exact Eval.Extends.bind (.refl _) fun _ => hguard.bind fun _ => .refl _

/-- With less fuel a guard does not hold either. -/
theorem Holdless.of_le {k : Nat} (hle : n ≤ k) {span : Span} {test : Expr}
    (h : (level ctx k).Holdless span test s) : (level ctx n).Holdless span test s := by
  have hextends := (Eval.Extends.congruence ctx.trace).locating (r := .expression) span
    ((related_level_of_le ctx hle).expr test)
  intro hgo v s₁ hguard
  rcases hextends s with hexhausted | hsame
  · rw [hexhausted] at hguard
    cases hguard
  · exact h hgo v s₁ (hsame.trans hguard)

/-! ### From one statement to the list -/

/-- No `when` of a list fires. -/
def NoneFires (ev : Evaluator) (body : List Stmt) (s : State) : Prop :=
  ∀ before action s₂, ¬ ev.FiresAfter body s before action s₂

theorem NoneFires.holdless {ev : Evaluator} {span : Span} {test : Expr} {action rest : List Stmt}
    (h : ev.NoneFires (.node span (.whenGuard test action) :: rest) s) :
    ev.Holdless span test s := by
  intro hgo v s₁ hguard
  by_contra hv
  exact h [] action s₁ ⟨span, test, rest, s, v, rfl, .nil, hgo, hguard, by simpa using hv⟩

/-- What does not fire in a list does not fire in the rest of it. -/
theorem NoneFires.rest {ev : Evaluator} {st : Stmt} {rest : List Stmt} {last last' : Value}
    {s s₁ : State} (h : ev.NoneFires (st :: rest) s)
    (hstep : ev.step last st s = .ok (.next last') s₁) : ev.NoneFires rest s₁ :=
  fun before action s₂ hfires => h (st :: before) action s₂ (hfires.cons hstep)

/-- The list without `when` needs one step more. -/
theorem stmts_withoutWhen (htrace : ctx.trace = false) {body : List Stmt}
    (h : (level ctx n).NoneFires body s) : (level ctx n).stmts body s = .exhausted ∨
      (level ctx (n + 1)).stmts (body.map Stmt.withoutWhen) s = (level ctx n).stmts body s := by
  have hR := Eval.Extends.congruence ctx.trace
  have hlevels := related_level_of_le ctx (Nat.le_succ n)
  have hlist := stmtsFrom_extends (level ctx n) (level ctx (n + 1)) id Stmt.withoutWhen
    (fun body s => (level ctx n).NoneFires body s) ?_ body .null s h
  · rwa [List.map_id] at hlist
  · intro st rest last s h
    refine ⟨?_, fun last' s₁ hstep => h.rest hstep⟩
    cases hwhen : st.isWhen with
    | true =>
      obtain ⟨span, kind⟩ := st
      cases kind with
      | whenGuard test action =>
        refine Or.inr ?_
        rw [step_withoutWhen_of_holdless htrace h.holdless, id,
          step_when_of_holdless h.holdless]
      | _ => cases hwhen
    | false =>
      rw [step_withoutWhen htrace hwhen]
      exact hR.step hlevels last st s

/-- The list with `when` needs no more steps. -/
theorem stmts_of_withoutWhen (htrace : ctx.trace = false) {body : List Stmt}
    (h : (level ctx n).NoneFires body s) :
    (level ctx n).stmts (body.map Stmt.withoutWhen) s = .exhausted ∨
      (level ctx n).stmts body s = (level ctx n).stmts (body.map Stmt.withoutWhen) s := by
  have hlist := stmtsFrom_extends (level ctx n) (level ctx n) Stmt.withoutWhen id
    (fun body s => (level ctx n).NoneFires body s) ?_ body .null s h
  · rwa [List.map_id] at hlist
  · intro st rest last s h
    have hstep : (level ctx n).step last st.withoutWhen s = .exhausted ∨
        (level ctx n).step last st s = (level ctx n).step last st.withoutWhen s := by
      cases hwhen : st.isWhen with
      | true =>
        obtain ⟨span, kind⟩ := st
        cases kind with
        | whenGuard test action =>
          cases n with
          | zero => exact Or.inl rfl
          | succ n =>
            have hle : n ≤ n + 1 := Nat.le_succ n
            rw [step_when_of_holdless h.holdless,
              step_withoutWhen_of_holdless htrace (h.holdless.of_le hle)]
            exact skip_extends hle last span test s
        | _ => cases hwhen
      | false => exact Or.inr (step_withoutWhen htrace hwhen last).symm
    refine ⟨hstep, fun last' s₁ hnext => ?_⟩
    rcases hstep with hexhausted | hsame
    · rw [hexhausted] at hnext
      cases hnext
    · exact h.rest (hsame.trans hnext)

end Evaluator

/-- The first `when` that holds decides. In a list of statements no two `when` fire. Where one
fires, the list has gone through all statements before it, once each and in order, executing those
that are no `when` and evaluating the guards of the others; it executes nothing else but the body of
the `when`, and comes to what this body comes to as a block, from the state that the guard left,
whatever statements follow. No other body of a `when` is executed. If no `when` fires, with any
fuel, and programs are not traced, then the list comes to what it comes to with an `if` without any
statements in place of each `when` and a plain block in place of each `otherwise`. -/
theorem first_when_decides (ctx : Context) (body : List Stmt) (s : State) :
    (∀ fuel before action s₂ before' action' s₂',
      (Evaluator.level ctx fuel).FiresAfter body s before action s₂ →
      (Evaluator.level ctx fuel).FiresAfter body s before' action' s₂' →
      before = before' ∧ action = action' ∧ s₂ = s₂') ∧
    (∀ fuel before action s₂, (Evaluator.level ctx fuel).FiresAfter body s before action s₂ →
      execStmts ctx fuel body s = execBlock ctx fuel action s₂ ∧
      ∀ part t, (Evaluator.level ctx fuel).Runs (fun ev => ev.stmts body) s part t →
        (part, t) = (.block action, s₂) ∨ ∃ first st rest, before = first ++ st :: rest ∧
          st.isWhen = false ∧ (Evaluator.level ctx fuel).GoesThrough s first t ∧
          part = .stmt st) ∧
    (∀ fuel action t,
      (Evaluator.level ctx fuel).Runs (fun ev => ev.stmts body) s (.block action) t →
      ∃ before, (Evaluator.level ctx fuel).FiresAfter body s before action t) ∧
    (ctx.trace = false → (∀ fuel, (Evaluator.level ctx fuel).NoneFires body s) →
      ∀ r s', Eval.ComesTo (fun fuel => execStmts ctx fuel body) s r s' ↔
        Eval.ComesTo (fun fuel => execStmts ctx fuel (body.map Stmt.withoutWhen)) s r s') := by
  refine ⟨?_, fun fuel before action s₂ h => ⟨h.stmts, fun part t hruns => h.runs hruns⟩,
    fun fuel action t hruns => Evaluator.firesAfter_of_runs hruns, ?_⟩
  · rintro fuel before action s₂ before' action' s₂' ⟨_, _, _, _, _, hbody, hbefore, _, hguard, hv⟩
      ⟨_, _, _, _, _, hbody', hbefore', _, hguard', hv'⟩
    exact hbefore.unique hguard hv hbefore' hguard' hv' (hbody.symm.trans hbody')
  · intro htrace hnone r s'
    constructor
    · intro h
      exact h.of_extends fun fuel =>
        ⟨fuel + 1, Evaluator.stmts_withoutWhen htrace (hnone fuel)⟩
    · intro h
      exact h.of_extends fun fuel => ⟨fuel, Evaluator.stmts_of_withoutWhen htrace (hnone fuel)⟩

/-- A `when` that does not hold. -/
def idleWhen : Stmt := Stmt.of (.whenGuard (Expr.of (.literal .null)) [Stmt.of .breakLoop])

/-- A `when` that holds. -/
def busyWhen : Stmt :=
  Stmt.of (.whenGuard (Expr.of (.literal (.bool true)))
    [Stmt.of (.expression (Expr.of (.literal (.bool true))))])

/-- A `when` that does not hold and an alternative for it. -/
def idleChoice : List Stmt := [idleWhen, Stmt.of (.otherwise [])]

theorem noneFires_idleChoice (fuel : Nat) :
    (Evaluator.level plainContext fuel).NoneFires idleChoice {} := by
  rintro before action s₂ ⟨span, test, after, s₁, v, hbody, -, hgo, hguard, hv⟩
  rcases before with _ | ⟨st, _ | ⟨st', before⟩⟩
  · cases hbody
    cases fuel with
    | zero => cases hguard
    | succ fuel =>
      have hnull : Eval.locating Span.unknown
          ((Evaluator.level plainContext (fuel + 1)).expr (Expr.of (.literal .null))) s₁ =
            .ok .null s₁ := by
        show Outcome.mapError _ (if s₁.interrupted then _ else _) = _
        rw [hgo]
        rfl
      cases hnull.symm.trans hguard
      cases hv
  · cases hbody
  · have hlength := congrArg List.length hbody
    simp [idleChoice] at hlength

theorem first_when_decides_choices :
    (Evaluator.level plainContext 3).FiresAfter [idleWhen, busyWhen, Stmt.of (.otherwise [])] {}
        [idleWhen] [Stmt.of (.expression (Expr.of (.literal (.bool true))))] {} ∧
      execStmts plainContext 3 [idleWhen, busyWhen, Stmt.of (.otherwise [])] {} =
        execBlock plainContext 3 [Stmt.of (.expression (Expr.of (.literal (.bool true))))] {} ∧
      plainContext.trace = false ∧
      (∀ fuel, (Evaluator.level plainContext fuel).NoneFires idleChoice {}) ∧
      Eval.ComesTo (fun fuel => execStmts plainContext fuel (idleChoice.map Stmt.withoutWhen)) {}
        (.ok (.normal .null)) { env := ({} : Environment).pushBlock.pop } := by
  have hfires : (Evaluator.level plainContext 3).FiresAfter
      [idleWhen, busyWhen, Stmt.of (.otherwise [])] {} [idleWhen]
      [Stmt.of (.expression (Expr.of (.literal (.bool true))))] {} :=
    ⟨_, _, _, {}, _, rfl, .skipped rfl rfl rfl .nil, rfl, rfl, rfl⟩
  obtain ⟨-, hdecides, -⟩ := first_when_decides plainContext
    [idleWhen, busyWhen, Stmt.of (.otherwise [])] {}
  obtain ⟨-, -, -, hnone⟩ := first_when_decides plainContext idleChoice {}
  refine ⟨hfires, (hdecides 3 _ _ _ hfires).1, rfl, noneFires_idleChoice, ?_⟩
  exact (hnone rfl noneFires_idleChoice _ _).1 ⟨3, rfl⟩

end ReactiveScript
