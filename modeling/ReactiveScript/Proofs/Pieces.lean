import ReactiveScript.Proofs.EventLogs
import ReactiveScript.Proofs.MoreFuel
import ReactiveScript.Proofs.ScopeDiscipline

/-!
# Programs in pieces

A program can be fed to an interpreter in pieces: what the pieces leave, one after the other, is
what the whole program leaves. The pieces differ from the whole in the log, and in the value where
the second piece has none of its own.
-/

namespace ReactiveScript

/-- Whether a statement is a `when`. -/
def Stmt.isWhen : Stmt → Bool
  | .node _ (.whenGuard _ _) => true
  | _ => false

/-- Whether a statement is an expression. -/
def Stmt.isExpression : Stmt → Bool
  | .node _ (.expression _) => true
  | _ => false

/-- Whether the last statement of a list is an expression. -/
def Stmt.endInExpression (body : List Stmt) : Bool := body.getLast?.any isExpression

theorem Stmt.endInExpression_cons (st : Stmt) {body : List Stmt} (h : body ≠ []) :
    endInExpression (st :: body) = endInExpression body := by
  obtain ⟨last, hlast⟩ := Option.isSome_iff_exists.1 (List.getLast?_isSome.2 h)
  unfold endInExpression
  rw [List.getLast?_cons, hlast]
  rfl

namespace Evaluator

variable (ev : Evaluator)

/-- What a statement other than `when` asks for, once it has completed. -/
def Step.after (st : Stmt) (last : Value) : Completion → Step
  | .normal v => .next (if st.isExpression then v else last)
  | completion => .leave completion

theorem step_eq {st : Stmt} (hst : st.isWhen = false) (last : Value) :
    ev.step last st = ev.stmt st >>= fun completion => pure (Step.after st last completion) := by
  unfold step
  split
  · cases hst
  · rename_i span kind _
    refine congrArg (ev.stmt (.node span kind) >>= ·) (funext fun completion => ?_)
    cases completion with
    | normal v => cases kind <;> rfl
    | broke | continued | returned => rfl

/-- A statement hands on the value that it found, unless it is an expression or ends the list. -/
theorem step_handsOn (st : Stmt) (last last' : Value) (s : State) :
    (ev.step last st s).SameButLog Eq
      (fun p p' => p = p' ∨ st.isExpression = false ∧ p = .next last ∧ p' = .next last')
      (ev.step last' st s) := by
  cases hwhen : st.isWhen with
  | false =>
    rw [ev.step_eq hwhen, ev.step_eq hwhen, Eval.bind_apply, Eval.bind_apply]
    cases ev.stmt st s with
    | ok completion s₁ =>
      refine .of_eq ?_ s₁
      cases completion with
      | normal v => cases hexpr : st.isExpression <;> simp [Step.after, hexpr]
      | broke | continued | returned => exact .inl rfl
    | error => exact .error rfl
    | exhausted => exact .exhausted
  | true =>
    unfold step
    split
    · rename_i span test body
      rw [Eval.checkInterrupt_bind, Eval.checkInterrupt_bind, Eval.bind_apply, Eval.bind_apply]
      split
      · exact .error rfl
      · cases Eval.locating span (ev.expr test) s with
        | ok guard s₁ =>
          dsimp only
          cases guard.isTruthy with
          | true => exact .refl (fun _ => .inl rfl) _
          | false => exact .of_eq (.inr ⟨rfl, rfl, rfl⟩) s₁
        | error => exact .error rfl
        | exhausted => exact .exhausted
    · rename_i span kind hne
      cases kind with
      | whenGuard test body => exact absurd rfl (hne test body)
      | _ => cases hwhen

/-- Lists of statements that start with different values differ at most in the value in the end, and
not even there if the last statement is an expression. -/
theorem stmtsFrom_handsOn (body : List Stmt) (last last' : Value) (s : State) :
    (ev.stmtsFrom last body s).SameButLog Eq
      (fun c c' => c = c' ∨ Stmt.endInExpression body = false ∧ c = .normal last ∧
        c' = .normal last')
      (ev.stmtsFrom last' body s) := by
  induction body generalizing last last' s with
  | nil => exact .of_eq (.inr ⟨rfl, rfl, rfl⟩) s
  | cons st body ih =>
    have hstep := ev.step_handsOn st last last' s
    rw [stmtsFrom_cons, stmtsFrom_cons, Eval.bind_apply, Eval.bind_apply]
    generalize ev.step last st s = o at hstep
    generalize ev.step last' st s = o' at hstep
    cases hstep with
    | @ok p p' s₁ log hv hlog =>
      subst hlog
      rcases hv with rfl | ⟨hst, rfl, rfl⟩
      · exact .refl (fun _ => .inl rfl) _
      · refine (ih last last' s₁).imp fun c c' hc => hc.imp_right fun h => ⟨?_, h.2⟩
        cases body with
        | nil => simpa [Stmt.endInExpression] using hst
        | cons next body => rw [Stmt.endInExpression_cons st (List.cons_ne_nil _ _), h.1]
    | error hlog =>
      subst hlog
      exact .error rfl
    | exhausted => exact .exhausted

/-- What follows a list of statements in the same list. -/
def followedBy (rest : List Stmt) : Completion → Eval Completion
  | .normal last => ev.stmtsFrom last rest
  | completion => pure completion

/-- A list without `when` goes on with what is appended to it, if it completes normally. -/
theorem stmtsFrom_append {body : List Stmt} (hbody : ∀ st ∈ body, st.isWhen = false)
    (last : Value) (rest : List Stmt) :
    ev.stmtsFrom last (body ++ rest) = ev.stmtsFrom last body >>= ev.followedBy rest := by
  induction body generalizing last with
  | nil => rfl
  | cons st body ih =>
    rw [List.forall_mem_cons] at hbody
    rw [List.cons_append, stmtsFrom_cons, stmtsFrom_cons, ev.step_eq hbody.1]
    funext s
    simp only [Eval.bind_apply]
    cases ev.stmt st s with
    | ok completion s₁ =>
      cases completion with
      | normal v => exact congrFun (ih hbody.2 _) s₁
      | broke | continued | returned => rfl
    | error | exhausted => rfl

end Evaluator

/-! ## Logs of pieces -/

/-- Whether an event announces a program. -/
def Event.announces : Event → Bool
  | .execute _ => true
  | _ => false

/-- Logs that differ only in the programs that they announce. -/
def SameReports (log log' : Array Event) : Prop :=
  log.filter (!·.announces) = log'.filter (!·.announces)

theorem SameReports.push {log log' : Array Event} (event : Event) (h : SameReports log log') :
    SameReports (log.push event) (log'.push event) := by
  unfold SameReports
  rw [Array.filter_push, Array.filter_push, h]

theorem SameReports.logRelation (trace : Bool) : LogRelation trace trace SameReports where
  push := .push
  pushIf event _ h := by
    cases trace with
    | false => exact h
    | true => exact h.push event

/-- Announcements do not count. -/
theorem SameReports.announced (log : Array Event) (n : Nat) :
    SameReports log (log.push (.execute n)) := by
  unfold SameReports
  rw [Array.filter_push]
  rfl

/-! ## Pieces -/

namespace Interpreter

variable {ctx : Context} {fuel : Nat} {s s₁ : State} {v : Value}

/-- A program that succeeds has completed normally, with its value. -/
theorem execStmts_of_execute {program : List Stmt} (h : execute ctx fuel program s = .ok v s₁) :
    execStmts ctx fuel program { s with events := s.events.push (.execute program.length) } =
      .ok (.normal v) s₁ := by
  rw [execute_eq] at h
  generalize execStmts ctx fuel program _ = o at h
  cases o with
  | ok completion s₂ =>
    cases completion with
    | normal v =>
      cases h
      rfl
    | broke | continued | returned => cases h
  | error | exhausted => cases h

/-- The statements of the whole program go on where the first piece has ended. -/
theorem execStmts_append {first : List Stmt} (second : List Stmt)
    (hfirst : ∀ st ∈ first, st.isWhen = false) {log : Array Event} (hlog : SameReports s.events log)
    (h : execStmts ctx fuel first s = .ok (.normal v) s₁) :
    ∃ log₁, SameReports s₁.events log₁ ∧
      execStmts ctx fuel (first ++ second) { s with events := log } =
        (Evaluator.level ctx fuel).stmtsFrom v second { s₁ with events := log₁ } := by
  have hlevel := (SameReports.logRelation ctx.trace).congruence.level fuel
  have hrun := (SameReports.logRelation ctx.trace).congruence.stmts hlevel first s log hlog
  unfold execStmts at h ⊢
  unfold Evaluator.stmts at h hrun ⊢
  rw [h] at hrun
  rw [Evaluator.stmtsFrom_append _ hfirst, Eval.bind_apply]
  generalize Evaluator.stmtsFrom _ .null first { s with events := log } = o at hrun
  cases hrun with
  | @ok _ _ _ log₁ hv hlog₁ =>
    subst hv
    exact ⟨log₁, hlog₁, rfl⟩

/-- The second piece, after the first one and on its own. -/
theorem stmtsFrom_handsOn (ctx : Context) (fuel : Nat) (v : Value) (second : List Stmt)
    (s : State) {log : Array Event} (hlog : SameReports s.events log) :
    ((Evaluator.level ctx fuel).stmtsFrom v second s).SameButLog SameReports
      (fun c c' => c = c' ∨ Stmt.endInExpression second = false ∧ c = .normal v ∧
        c' = .normal .null)
      (execStmts ctx fuel second { s with events := log }) := by
  have hlevel := (SameReports.logRelation ctx.trace).congruence.level fuel
  have hrun := (SameReports.logRelation ctx.trace).congruence.stmtsFrom hlevel v second s log hlog
  refine (hrun.trans (Evaluator.stmtsFrom_handsOn _ second v .null _)).imp fun c c' hc => ?_
  obtain ⟨_, rfl, hc⟩ := hc
  exact hc

/-- What becomes of the completion of a program. -/
theorem programResult_sameButLog {second : List Stmt} {c c' : Completion}
    (h : c = c' ∨ Stmt.endInExpression second = false ∧ c = .normal v ∧ c' = .normal .null)
    {log : Array Event} (hlog : SameReports s.events log) :
    (programResult c s).SameButLog SameReports
      (fun w w' => Stmt.endInExpression second = true → w = w')
      (programResult c' { s with events := log }) := by
  rcases h with rfl | ⟨hsecond, rfl, rfl⟩
  · cases c with
    | normal w => exact .ok (fun _ => rfl) hlog
    | broke | continued | returned => exact .error hlog
  · refine .ok (fun hexpr => ?_) hlog
    rw [hsecond] at hexpr
    cases hexpr

end Interpreter

/-- If the first piece of a program succeeds, and it has no `when` of its own, then the second piece
comes to what the whole program comes to: a value or the same error, in the same state but for the
programs that the log announces. The values are the same if the second piece ends in an
expression. Fuel that is enough for the first piece may be exceeded afterwards. -/
theorem feeding_in_pieces (ctx : Context) {fuel fuel' : Nat} {first second : List Stmt}
    {s s₁ : State} {v : Value} (hfirst : ∀ st ∈ first, st.isWhen = false) (hfuel : fuel ≤ fuel')
    (h : Interpreter.execute ctx fuel first s = .ok v s₁) :
    (Interpreter.execute ctx fuel' (first ++ second) s).SameButLog SameReports
      (fun w w' => Stmt.endInExpression second = true → w = w')
      (Interpreter.execute ctx fuel' second s₁) := by
  have hpiece := Interpreter.execStmts_of_execute (Interpreter.execute_of_le h hfuel)
  have hannounced : SameReports (s.events.push (.execute first.length))
      (s.events.push (.execute (first ++ second).length)) :=
    (SameReports.announced _ _).symm.trans (SameReports.announced _ _)
  obtain ⟨log, hlog, hwhole⟩ :=
    Interpreter.execStmts_append second hfirst hannounced hpiece
  have hsecond := Interpreter.stmtsFrom_handsOn ctx fuel' v second
    { s₁ with events := log } (hlog.symm.trans (SameReports.announced _ second.length))
  rw [Interpreter.execute_eq, Interpreter.execute_eq, hwhole]
  generalize Evaluator.stmtsFrom _ v second { s₁ with events := log } = o at hsecond
  generalize Interpreter.execStmts _ _ second _ = o' at hsecond
  cases hsecond with
  | ok hc hlog => exact Interpreter.programResult_sameButLog hc hlog
  | @error failure s₂ log₂ hlog =>
    exact .error (s := { s₂ with events := s₂.events.push (.failed failure.message) })
      (hlog.push _)
  | exhausted => exact .exhausted

/-- A variable with a handler. -/
def watchedVariable : List Stmt :=
  [Stmt.of (.declare .blockScoped [("x", some (Expr.of (.literal .null)))]),
    Stmt.of (.observe ["x"] (Expr.of (.function none [] [])))]

/-- A change of the variable, and its value. -/
def changedVariable : List Stmt :=
  [Stmt.of (.expression (Expr.of (.assign none (Expr.of (.ident "x"))
      (Expr.of (.literal (.bool true)))))),
    Stmt.of (.expression (Expr.of (.ident "x")))]

/-- The change comes to the same if the variable was declared and observed in an earlier piece. -/
theorem feeding_in_pieces_watchedVariable :
    (∀ st ∈ watchedVariable, st.isWhen = false) ∧ 5 ≤ 6 ∧
      ∃ s₁, Interpreter.execute plainContext 5 watchedVariable {} = .ok .null s₁ ∧
        (Interpreter.execute plainContext 6 (watchedVariable ++ changedVariable) {}).SameButLog
          SameReports (fun w w' => w = w')
          (Interpreter.execute plainContext 6 changedVariable s₁) := by
  have hfirst : ∀ st ∈ watchedVariable, st.isWhen = false := by decide
  have hfuel : 5 ≤ 6 := by decide
  refine ⟨hfirst, hfuel, _, rfl, ?_⟩
  exact (feeding_in_pieces plainContext hfirst hfuel rfl).imp fun _ _ h => h rfl

end ReactiveScript
