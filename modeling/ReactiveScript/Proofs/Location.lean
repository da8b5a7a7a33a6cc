import ReactiveScript.Proofs.Placement
import ReactiveScript.Proofs.ScopeDiscipline

/-!
# Located failures

A node whose position is known locates every failure inside of it, so a list of statements whose
positions are known fails with a position only. There is one exception to the first part: a `when`
statement of a list locates the failures of its guard, but not those of its body, whose statements
take its place. They need a known position of their own.

The position is known as well, unless a declaration without a known position was refused. Such a
declaration gives the unknown position to the failure, and the nodes around it do not replace it.
-/

namespace ReactiveScript

mutual

/-- Whether a statement of a list has a known position, and if it is a `when`, the statements that
take its place have one too. -/
def Stmt.isLocated : Stmt → Bool
  | .node span kind => span.isKnown && kind.isBodyLocated

/-- Whether the statements that take the place of a `when` have known positions. -/
def StmtKind.isBodyLocated : StmtKind → Bool
  | .whenGuard _ body => Stmt.areLocated body
  | _ => true

/-- Statements that all have known positions, as well as those that take their place. -/
def Stmt.areLocated : List Stmt → Bool
  | [] => true
  | st :: rest => st.isLocated && Stmt.areLocated rest

end

theorem Stmt.isKnown_of_isLocated {st : Stmt} (h : st.isLocated = true) :
    st.span.isKnown = true := by
  obtain ⟨span, kind⟩ := st
  rw [isLocated, Bool.and_eq_true] at h
  exact h.1

/-- An evaluator that locates the failures of statements with known positions, and of blocks of
them. -/
structure Evaluator.Locates (ev : Evaluator) : Prop where
  stmt (st : Stmt) : st.span.isKnown = true → (ev.stmt st).Ends Failure.Located fun _ => True
  block (body : List Stmt) :
    Stmt.areLocated body = true → (ev.block body).Ends Failure.Located fun _ => True

namespace Evaluator.Locates

variable {ctx : Context} {ev : Evaluator}

/-- One statement of a list. A `when` locates its guard only. -/
theorem step (h : ev.Locates) (hev : ev.Places) (last : Value) {st : Stmt}
    (hst : st.isLocated = true) : (ev.step last st).Ends Failure.Located fun _ => True := by
  unfold Evaluator.step
  split
  · rename_i span test body
    have hspan : span.isKnown = true := Stmt.isKnown_of_isLocated hst
    have hbody : Stmt.areLocated body = true := by
      rw [Stmt.isLocated, Bool.and_eq_true, StmtKind.isBodyLocated] at hst
      exact hst.2
    have hcheck : Eval.checkInterrupt.Ends Failure.Located fun _ => True :=
      Eval.Ends.unlessInterrupted (fun _ => trivial) trivial
    have hguard : (Eval.locating span (ev.expr test)).Ends Failure.Located fun _ => True :=
      (hev.expr test).mapError fun _ hplaced => hplaced.located hspan
    refine hcheck.bind fun _ _ => hguard.bind fun guard _ => ?_
    split
    · exact (h.block body hbody).bind fun _ _ _ => trivial
    · exact fun _ => trivial
  · rename_i span kind _
    have hspan : span.isKnown = true := Stmt.isKnown_of_isLocated hst
    refine (h.stmt (.node span kind) hspan).bind fun completion _ => ?_
    split <;> exact fun _ => trivial

/-- A list of statements, by induction on those that are left. -/
theorem stmtsFrom (h : ev.Locates) (hev : ev.Places) (last : Value) {body : List Stmt}
    (hbody : Stmt.areLocated body = true) :
    (ev.stmtsFrom last body).Ends Failure.Located fun _ => True := by
  induction body generalizing last with
  | nil => exact fun _ => trivial
  | cons st body ih =>
    rw [Stmt.areLocated, Bool.and_eq_true] at hbody
    rw [Evaluator.stmtsFrom_cons]
    refine (h.step hev last hbody.1).bind fun next _ => ?_
    cases next with
    | next last => exact ih last hbody.2
    | leave completion => exact fun _ => trivial

/-- A statement whose position is known gives it to all failures that have none. A block gives none
and relies on its statements. -/
theorem next (h : ev.Locates) (hev : ev.Places) : (Evaluator.next ctx ev).Locates where
  stmt st hspan := by
    have hkind := (hev.traced ctx st).mapError fun _ hplaced => hplaced.located hspan
    exact Eval.Ends.unlessInterrupted hkind trivial
  block body hbody := Eval.Ends.inBlock (h.stmtsFrom hev .null hbody)

end Evaluator.Locates

theorem Evaluator.locates_level (ctx : Context) (n : Nat) : (level ctx n).Locates := by
  induction n with
  | zero => exact ⟨fun _ _ _ => trivial, fun _ _ _ => trivial⟩
  | succ n ih =>
    rw [level_succ]
    exact ih.next (places_level ctx n)

/-- Failures are located. If all statements of a program have known positions, and those in the
bodies of its `when` statements too, then whatever the state, each failure of the program that is no
interruption has a position. It is known, unless the failure is a refused declaration. -/
theorem failures_are_located (ctx : Context) (fuel : Nat) (program : List Stmt) (s s' : State)
    (failure : Failure) (hprogram : Stmt.areLocated program = true)
    (h : Interpreter.execStmts ctx fuel program s = .error failure s')
    (hfailure : failure ≠ .interrupted) :
    ∃ cause span, failure = .raised cause (some span) ∧
      (span.isKnown = true ∨ cause.isRefusedDeclaration = true) := by
  have hends := (Evaluator.locates_level ctx fuel).stmtsFrom (Evaluator.places_level ctx fuel)
    .null hprogram s
  have hlocated : failure.Located := by
    rw [show (Evaluator.level ctx fuel).stmtsFrom .null program s = .error failure s' from h]
      at hends
    exact hends
  cases failure with
  | interrupted => exact absurd rfl hfailure
  | raised cause span =>
    cases span with
    | none => exact hlocated.elim
    | some span => exact ⟨cause, span, rfl, hlocated⟩

/-- The failure of a computation that fails. -/
def Outcome.failure? {σ ε α : Type} : Outcome σ ε α → Option ε
  | .error failure _ => some failure
  | .ok _ _ => none
  | .exhausted => none

theorem Outcome.eq_error {σ ε α : Type} {o : Outcome σ ε α} {failure : ε}
    (h : o.failure? = some failure) : ∃ s, o = .error failure s := by
  cases o with
  | error e s =>
    cases h
    exact ⟨s, rfl⟩
  | ok a s => cases h
  | exhausted => cases h

/-- A `throw` without a position. -/
def throwBoom : Stmt := Stmt.of (.throw (Expr.of (.literal (.string "boom"))))

/-- A statement at the start of a line. -/
def StmtKind.atLine (kind : StmtKind) (line : Nat) : Stmt := .node ⟨line, 1⟩ kind

/-- In line 5 a `when` whose body is a block in line 6, and in it a `throw` without a position. -/
def nestedThrow : List Stmt :=
  [(StmtKind.whenGuard (Expr.of (.literal (.bool true)))
    [(StmtKind.block [throwBoom]).atLine 6]).atLine 5]

theorem failures_are_located_nestedThrow :
    Stmt.areLocated nestedThrow = true ∧
      ∃ s' failure, Interpreter.execStmts plainContext 5 nestedThrow {} = .error failure s' ∧
        failure ≠ .interrupted ∧ ∃ cause span, failure = .raised cause (some span) ∧
          (span.isKnown = true ∨ cause.isRefusedDeclaration = true) := by
  have hfails : (Interpreter.execStmts plainContext 5 nestedThrow {}).failure? =
      some (.raised (.thrown (.string "boom") "boom") (some ⟨6, 1⟩)) := by decide +kernel
  obtain ⟨s', hs'⟩ := Outcome.eq_error hfails
  have hprogram : Stmt.areLocated nestedThrow = true := by decide
  exact ⟨hprogram, s', _, hs', by decide, failures_are_located plainContext 5 nestedThrow {} s' _
    hprogram hs' (by decide)⟩

/-- In line 5 a `when` whose body is a `throw` without a position. -/
def guardedThrow : List Stmt :=
  [(StmtKind.whenGuard (Expr.of (.literal (.bool true))) [throwBoom]).atLine 5]

/-- In line 3 a block that declares a name twice, without positions. -/
def doubleDeclaration : List Stmt :=
  [(StmtKind.block [Stmt.of (.declare .blockScoped [("x", none)]),
    Stmt.of (.declare .blockScoped [("x", none)])]).atLine 3]

/-- In line 4 a block that declares a function without a name, without a position. -/
def namelessDeclaration : List Stmt :=
  [(StmtKind.block [Stmt.of (.function none [] [])]).atLine 4]

/-- Known positions of the statements of a program do not suffice. The failure in the body of a
`when` has no position, and refused declarations keep their unknown one, although all three programs
consist of one statement whose position is known. -/
theorem known_positions_get_lost :
    (∀ program ∈ [guardedThrow, doubleDeclaration, namelessDeclaration],
      ∀ st ∈ program, st.span.isKnown = true) ∧
    (Interpreter.execStmts plainContext 5 guardedThrow {}).failure? =
      some (.raised (.thrown (.string "boom") "boom") none) ∧
    (Interpreter.execStmts plainContext 5 doubleDeclaration {}).failure? =
      some (.raised (.binding (.duplicate "x")) (some .unknown)) ∧
    (Interpreter.execStmts plainContext 5 namelessDeclaration {}).failure? =
      some (.raised (.typeMismatch "function declaration needs a name") (some .unknown)) := by
  refine ⟨by decide, ?_, ?_, ?_⟩ <;> decide +kernel

end ReactiveScript
