import ReactiveScript.Proofs.Congruence.Statement
import ReactiveScript.Session

/-!
# Congruence of programs

Programs, notifications and the requests of a host, answered by related evaluators. What is needed
beyond a congruence is listed in `SessionCongruence`; resetting an interpreter is left out, because
it is no evaluation that starts and ends in the same scopes.
-/

namespace ReactiveScript

/-- Takes the next notification off the queue, if one is waiting. -/
def Eval.takeNotification : Eval (Option Notification) := fun s =>
  match Interpreter.takeNotification s with
  | none => .ok none s
  | some (task, s) => .ok (some task) s

namespace Evaluator

variable (ev : Evaluator)

/-- Delivers a notification if there is one, and says whether there was. -/
def deliverNext : Option Notification → Eval Bool
  | none => pure false
  | some task => do
    let _ ← Eval.attempt (ev.notifyHandler task)
    pure true

theorem deliverNext_some (task : Notification) (s : State) :
    ev.deliverNext (some task) s =
      match ev.deliver task s with
      | some s => .ok true s
      | none => .exhausted := by
  show ((ev.notifyHandler task).attempt >>= fun _ => pure true) s = _
  rw [Eval.bind_apply]
  unfold Eval.attempt deliver
  cases ev.notifyHandler task s <;> rfl

theorem runNext_eq : ev.runNext = Eval.takeNotification >>= ev.deliverNext := by
  funext s
  rw [Eval.bind_apply]
  unfold runNext Eval.takeNotification
  cases Interpreter.takeNotification s with
  | none => rfl
  | some next => exact (ev.deliverNext_some next.1 next.2).symm

/-- A drain delivers one notification after the other. -/
theorem drain_succ (fuel ran : Nat) :
    ev.drain (fuel + 1) ran = (do
      Eval.checkInterrupt
      let delivered ← ev.runNext
      if delivered then ev.drain fuel (ran + 1) else pure ran) := by
  funext s
  rw [Eval.checkInterrupt_bind, Eval.bind_apply]
  unfold drain runNext TaskQueue.drain
  cases Interpreter.takeNotification s with
  | none => rfl
  | some next =>
    obtain ⟨task, taken⟩ := next
    dsimp only
    cases ev.deliver task taken <;> rfl

end Evaluator

/-- A program is executed as a list of statements, between two events. -/
theorem Interpreter.execute_eq (ctx : Context) (fuel : Nat) (program : List Stmt) (s : State) :
    execute ctx fuel program s =
      match execStmts ctx fuel program
        { s with events := s.events.push (.execute program.length) } with
      | .ok completion s => programResult completion s
      | .error failure s =>
        .error failure { s with events := s.events.push (.failed failure.message) }
      | .exhausted => .exhausted := by
  show (Eval.attempt (execStmts ctx fuel program) >>= _) _ = _
  rw [Eval.bind_apply, Eval.attempt]
  cases execStmts ctx fuel program
    { s with events := s.events.push (.execute program.length) } <;> rfl

/-- Whether a request delivers notifications. -/
def Request.delivers : Request → Bool
  | .run _ | .runPending | .runNext => true
  | _ => false

namespace Congruence

variable {ctx : Context} {trace trace' : Bool} {R : Reach → {α : Type} → Eval α → Eval α → Prop}
  {hosted : (Store → Reply) → Prop} {ev ev' : Evaluator}

/-- The delivery of a notification is a call whose failure is only logged. -/
theorem notifyWith (hR : Congruence trace trace' R hosted) (h : ev.Related R ev')
    (task : Notification) : R .call (ev.notifyHandler task) (ev'.notifyHandler task) := by
  have hcall := h.call task.handler task.args none
  refine hR.bind (hR.attempt hcall) fun result => ?_
  cases result with
  | ok v => exact hR.pure _
  | error failure => exact hR.emit _

/-- A program is a list of statements whose failure is logged. -/
theorem executeWith (hR : Congruence ctx.trace trace R hosted) (h : ev.Related R ev')
    (program : List Stmt) : R .statement (ev.execute program) (ev'.execute program) := by
  have hstmts := hR.stmts h program
  refine hR.bind (hR.emit _) fun _ => ?_
  refine hR.bind (hR.attempt hstmts) fun result => ?_
  cases result with
  | error failure => exact hR.bind (hR.emit _) fun _ => hR.fail failure
  | ok completion =>
    show R .statement (Interpreter.programResult completion) (Interpreter.programResult completion)
    unfold Interpreter.programResult
    split
    · exact hR.raise _
    · exact hR.pure _

theorem notifyHandler [ctx.library.Within hosted] (hR : Congruence ctx.trace trace R hosted)
    (fuel : Nat) (task : Notification) :
    R .call (Interpreter.notifyHandler ctx fuel task)
      (Interpreter.notifyHandler (ctx.tracing trace) fuel task) :=
  hR.notifyWith (hR.level fuel) task

theorem execute [ctx.library.Within hosted] (hR : Congruence ctx.trace trace R hosted)
    (fuel : Nat) (program : List Stmt) :
    R .statement (Interpreter.execute ctx fuel program)
      (Interpreter.execute (ctx.tracing trace) fuel program) :=
  hR.executeWith (hR.level fuel) program

/-- Related evaluators answer a request in related ways, if it delivers no notification. -/
theorem perform (hR : Congruence ctx.trace trace R hosted) (h : ev.Related R ev')
    (hinterrupt : R .call (Request.perform ev 0 .interrupt) (Request.perform ev' 0 .interrupt))
    (fuel : Nat) {request : Request} (hdelivers : request.delivers = false)
    (hreset : request ≠ .reset) :
    R .statement (request.perform ev fuel) (request.perform ev' fuel) := by
  cases request with
  | execute program => exact hR.bind (hR.executeWith h program) fun _ => hR.pure ()
  | evaluate e => exact hR.bind (hR.ofExpression (h.expr e)) fun _ => hR.pure ()
  | block body => exact hR.bind (h.block body) fun _ => hR.pure ()
  | call f args receiver =>
    exact hR.bind (hR.ofExpression (hR.ofCall (h.call f args receiver))) fun _ => hR.pure ()
  | assign name value => exact hR.ofExpression (hR.assignVariable name value)
  | interrupt => exact hR.ofExpression (hR.ofCall hinterrupt)
  | reset => exact absurd rfl hreset
  | run | runPending | runNext => cases hdelivers

end Congruence

/-- A congruence that also holds of the use of the queue and of interruption. -/
structure SessionCongruence (trace trace' : Bool)
    (R : Reach → {α : Type} → Eval α → Eval α → Prop)
    (hosted : (Store → Reply) → Prop := fun _ => True) : Prop extends
    Congruence trace trace' R hosted where
  takeNotification : R .call Eval.takeNotification Eval.takeNotification
  interrupt : R .call (fun s => .ok () { s with interrupted := true })
    (fun s => .ok () { s with interrupted := true })

namespace SessionCongruence

variable {ctx : Context} {trace : Bool} {R : Reach → {α : Type} → Eval α → Eval α → Prop}
  {hosted : (Store → Reply) → Prop} {ev ev' : Evaluator}

theorem runNext (hR : SessionCongruence ctx.trace trace R hosted) (h : ev.Related R ev') :
    R .call ev.runNext ev'.runNext := by
  rw [Evaluator.runNext_eq, Evaluator.runNext_eq]
  refine hR.bind hR.takeNotification fun next => ?_
  cases next with
  | none => exact hR.pure _
  | some task =>
    have hnotify := hR.toCongruence.notifyWith h task
    exact hR.bind (hR.attempt hnotify) fun _ => hR.pure _

/-- One notification after the other, by induction on those that are allowed. -/
theorem drain (hR : SessionCongruence ctx.trace trace R hosted) (h : ev.Related R ev')
    (fuel ran : Nat) : R .call (ev.drain fuel ran) (ev'.drain fuel ran) := by
  induction fuel generalizing ran with
  | zero => exact hR.stop
  | succ fuel ih =>
    rw [Evaluator.drain_succ, Evaluator.drain_succ]
    refine hR.bind hR.checkInterrupt fun _ => ?_
    refine hR.bind (hR.runNext h) fun delivered => ?_
    split
    · exact ih (ran + 1)
    · exact hR.pure ran

theorem runPending (hR : SessionCongruence ctx.trace trace R hosted) (h : ev.Related R ev')
    (fuel : Nat) : R .call (ev.runPending fuel) (ev'.runPending fuel) := by
  refine hR.bind (hR.drain h fuel 0) fun ran => ?_
  split
  · exact hR.bind (hR.emit _) fun _ => hR.pure ran
  · exact hR.pure ran

/-- What a call may do, a statement may do. -/
theorem statement_of_call (hR : SessionCongruence ctx.trace trace R hosted) {α : Type}
    {m m' : Eval α} (h : R .call m m') : R .statement m m' :=
  hR.ofExpression (hR.ofCall h)

theorem run (hR : SessionCongruence ctx.trace trace R hosted) (h : ev.Related R ev') (fuel : Nat)
    (program : List Stmt) : R .statement (ev.run fuel program) (ev'.run fuel program) := by
  refine hR.bind (hR.toCongruence.executeWith h program) fun v => ?_
  exact hR.bind (hR.statement_of_call (hR.runPending h fuel)) fun _ => hR.pure v

/-- Related evaluators answer a request in related ways. -/
theorem perform (hR : SessionCongruence ctx.trace trace R hosted) (h : ev.Related R ev')
    (fuel : Nat) {request : Request} (hrequest : request ≠ .reset) :
    R .statement (request.perform ev fuel) (request.perform ev' fuel) := by
  cases request with
  | run program => exact hR.bind (hR.run h fuel program) fun _ => hR.pure ()
  | runPending =>
    exact hR.bind (hR.statement_of_call (hR.runPending h fuel)) fun _ => hR.pure ()
  | runNext => exact hR.bind (hR.statement_of_call (hR.runNext h)) fun _ => hR.pure ()
  | _ => exact hR.toCongruence.perform h hR.interrupt fuel rfl hrequest

end SessionCongruence

end ReactiveScript
