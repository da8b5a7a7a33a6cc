import ReactiveScript.Proofs.Footprint
import ReactiveScript.Proofs.Journal.Blank

/-!
# Notifications of a program

What the journals say about the queue. Whatever is evaluated, the queue afterwards is the queue
before it and then the tasks of the changes that the executed assignments make, in their order. A
construct whose parts execute no assignment leaves the queue alone, unless it is one of those that
assign to a variable.
-/

namespace ReactiveScript

/-! ## Programs and notifications -/

/-- The assignments of a program. -/
def Journal.execute (ctx : Context) (fuel : Nat) (program : List Stmt) : Journal :=
  after (Eval.emit (.execute program.length)) fun _ =>
    stmts (Evaluator.level ctx fuel) (Journals.level ctx fuel) program

namespace Journals

/-- A program is a list of statements whose failure is logged. -/
theorem execute (ctx : Context) (fuel : Nat) (program : List Stmt) :
    (Interpreter.execute ctx fuel program).Executes .statement (.execute ctx fuel program) := by
  unfold Interpreter.execute Journal.execute Journal.after
  refine (Eval.Executes.emit _).bind fun _ => ?_
  refine ((kept_level ctx fuel).stmts program).attempt.bind_blank fun result => ?_
  cases result with
  | error failure => exact (Eval.Executes.emit _).bind_blank fun _ => .fail failure
  | ok completion =>
    show (Interpreter.programResult completion).Executes .statement .blank
    unfold Interpreter.programResult
    split
    · exact .raise _
    · exact .pure _

/-- The delivery of a notification is a call whose failure is logged. -/
theorem notifyHandler (ctx : Context) (fuel : Nat) (task : Notification) :
    (Interpreter.notifyHandler ctx fuel task).Executes .call
      ((level ctx fuel).call task.handler task.args none) := by
  have hcall := (kept_level ctx fuel).call task.handler task.args none
  refine hcall.attempt.bind_blank fun result => ?_
  cases result with
  | ok v => exact .pure _
  | error failure => exact .emit _

end Journals

/-! ## The queue -/

/-- The assignments were executed on the way to the later state, and the queue is the earlier one
followed by the tasks of the changes that they made, under the next handles. -/
def Dispatched (r : Reach) (assigned : List Assigned) (s s' : State) : Prop :=
  ∃ changes, Run r s changes s' ∧ ChangesOf assigned changes ∧ s'.queue.entries =
    s.queue.entries ++ TaskQueue.numbered s.queue.nextHandle (changes.flatMap Change.tasks)

namespace Eval.Executes

variable {r : Reach} {α : Type} {m : Eval α} {j : Journal}

theorem dispatched (hm : m.Executes r j) (s : State) : (m s).Leaves (Dispatched r (j s) s) := by
  refine (hm s).imp fun s' hs' => ?_
  obtain ⟨changes, hrun, hmade⟩ := hs'
  refine ⟨changes, hrun, hmade, ?_⟩
  rw [hrun.queue, TaskQueue.entries_scheduleAll]

/-- Without assignments nothing is queued. -/
theorem queue_of_blank (hm : m.Executes r .blank) (s : State) :
    (m s).Leaves fun s' => s'.queue = s.queue := by
  refine (hm s).imp fun s' hs' => ?_
  obtain ⟨changes, hrun, hmade⟩ := hs'
  cases hmade
  exact hrun.queue

end Eval.Executes

/-- Dispatch is exact, ordered and deferred. An assignment to a variable is announced to all its
observers if it changes the variable, and otherwise not at all. Whatever is evaluated and however
that ends, the queue afterwards is the queue before it, followed by the tasks of the changes that
the executed assignments made, in the order in which they were executed. No task is run, withdrawn
or moved. And nothing but an assignment to a variable queues anything: a call or a construct whose
parts execute no assignment leaves the queue as it is, unless it is an assignment to a variable, a
counting expression or a loop over items that declares no variable. -/
theorem notifications_follow_assignments (ctx : Context) (fuel : Nat) (s : State) :
    (∀ name v, Assignment name v s (Rule.assignVariable name v s)) ∧
    (∀ e, (Interpreter.evalExpr ctx fuel e s).Leaves
      (Dispatched .expression ((Journals.level ctx fuel).expr e s) s)) ∧
    (∀ st, (Interpreter.execStmt ctx fuel st s).Leaves
      (Dispatched .statement ((Journals.level ctx fuel).stmt st s) s)) ∧
    (∀ body, (Interpreter.execStmts ctx fuel body s).Leaves (Dispatched .statement
      (Journal.stmts (Evaluator.level ctx fuel) (Journals.level ctx fuel) body s) s)) ∧
    (∀ body, (Interpreter.execBlock ctx fuel body s).Leaves
      (Dispatched .statement ((Journals.level ctx fuel).block body s) s)) ∧
    (∀ f args receiver, (Interpreter.callValue ctx fuel f args receiver s).Leaves
      (Dispatched .call ((Journals.level ctx fuel).call f args receiver s) s)) ∧
    (∀ program, (Interpreter.execute ctx fuel program s).Leaves
      (Dispatched .statement (Journal.execute ctx fuel program s) s)) ∧
    ∀ ev : Evaluator, Journals.blank.Kept ev →
      (∀ kind, kind.assignsVariable = false →
        (Rule.exprKind ctx ev kind s).Leaves fun s' => s'.queue = s.queue) ∧
      (∀ span kind, kind.assignsVariable = false →
        (Rule.stmtKind ctx ev span kind s).Leaves fun s' => s'.queue = s.queue) ∧
      ∀ f args receiver, (Rule.call ctx ev f args receiver s).Leaves fun s' =>
        s'.queue = s.queue := by
  have hkept := Journals.kept_level ctx fuel
  refine ⟨fun name v => Rule.assignment name v s, fun e => (hkept.expr e).dispatched s,
    fun st => (hkept.stmt st).dispatched s, fun body => (hkept.stmts body).dispatched s,
    fun body => (hkept.block body).dispatched s,
    fun f args receiver => (hkept.call f args receiver).dispatched s,
    fun program => (Journals.execute ctx fuel program).dispatched s,
    fun ev hblank => ⟨fun kind hkind => (hblank.exprKind_blank hkind).queue_of_blank s,
      fun span kind hkind => (hblank.stmtKind_blank hkind span).queue_of_blank s,
      fun f args receiver => (hblank.call_blank f args receiver).queue_of_blank s⟩⟩

/-- A variable with a handler. -/
def observedFlag : State where
  env := ((({} : Environment).define "a" (.bool false) .blockMutable).observe "a"
    (.function 0)).toOption.getD {}

/-- A loop of two rounds that declares a variable of the same name and registers a handler for it
in each of them. -/
def declaringLoop : StmtKind :=
  .forOf ⟨some .blockScoped, "a"⟩ (Expr.of (.literal (.string "xy")))
    (Stmt.of (.observe ["a"] (Expr.of (.function none [] []))))

/-- This loop, and then two assignments of one value. -/
def loopThenAssign : List Stmt :=
  [Stmt.of declaringLoop, assignTo "a" (Expr.of (.literal (.bool true))),
    assignTo "a" (Expr.of (.literal (.bool true)))]

/-- An evaluator that executes no assignment, but registers a handler with every statement. -/
def registering : Evaluator where
  expr _ := pure (.string "xy")
  stmt _ := do
    Eval.tryEnv (Rule.register ["a"] (.function 0))
    pure .done
  block _ := pure .done
  call _ _ _ := pure .null
  rounds := 1

/-- Both assignments are executed, and the first one is announced. The loop queues nothing, although
its variable is observed when the second round sets it. -/
theorem notifications_follow_assignments_loopThenAssign :
    let executed := Journal.stmts (Evaluator.level plainContext 5) (Journals.level plainContext 5)
      loopThenAssign observedFlag
    executed.map (fun a => (a.name, a.value)) = [("a", .bool true), ("a", .bool true)] ∧
      (Interpreter.execStmts plainContext 5 loopThenAssign observedFlag).state?.map
        (fun s => s.queue.entries) =
          some [(0, ⟨"a", .function 0, [.bool false, .bool true, .string "a"]⟩)] ∧
      (Interpreter.execStmts plainContext 5 loopThenAssign observedFlag).Leaves
        (Dispatched .statement executed observedFlag) ∧
      Journals.blank.Kept registering ∧ declaringLoop.assignsVariable = false ∧
      (Rule.stmtKind plainContext registering .unknown declaringLoop observedFlag).Leaves
        fun s' => s'.queue = observedFlag.queue := by
  intro executed
  have hregister : (Eval.tryEnv (Rule.register ["a"] (.function 0))).Executes .expression .blank :=
    .tryEnv fun _ _ h => .register h
  have hblank : Journals.blank.Kept registering :=
    ⟨fun _ => .pure _, fun _ => hregister.ofExpression.bind_blank fun _ => .pure _,
      fun _ => .pure _, fun _ _ _ => .pure _⟩
  obtain ⟨-, -, -, hstmts, -, -, -, hquiet⟩ :=
    notifications_follow_assignments plainContext 5 observedFlag
  exact ⟨by decide +kernel, by decide +kernel, hstmts loopThenAssign, hblank, rfl,
    (hquiet registering hblank).2.1 .unknown declaringLoop rfl⟩

end ReactiveScript
