import ReactiveScript.Interpreter

/-!
# Sessions

A host makes requests of an interpreter, one after the other; each starts in the state that the one
before it left, whether that succeeded or failed.

Requests are answered by an evaluator. Interpreters use the evaluators of a level, and other
evaluators serve to compare runs.
-/

namespace ReactiveScript

/-! ## Programs and notifications -/

namespace Evaluator

variable (ev : Evaluator)

/-- Executes a program. -/
def execute (program : List Stmt) : Eval Value := do
  Eval.emit (.execute program.length)
  let result ← Eval.attempt (ev.stmts program)
  match result with
  | .error failure => do
    Eval.emit (.failed failure.message)
    Eval.fail failure
  | .ok completion => Interpreter.programResult completion

/-- Carries out a notification. -/
def notifyHandler (task : Notification) : Eval Unit := do
  let result ← Eval.attempt (ev.call task.handler task.args none)
  match result with
  | .ok _ => pure ()
  | .error failure =>
    Eval.emit (.observerFailed (Cause.observerFailed task.name failure.message).message)

/-- The state after a notification, unless the fuel ran out. -/
def deliver (task : Notification) (s : State) : Option State :=
  match ev.notifyHandler task s with
  | .ok _ s => some s
  | .error _ s => some s
  | .exhausted => none

/-- Delivers one notification, and says whether there was one. -/
def runNext : Eval Bool := fun s =>
  match Interpreter.takeNotification s with
  | none => .ok false s
  | some (task, s) =>
    match ev.deliver task s with
    | some s => .ok true s
    | none => .exhausted

/-- Delivers notifications until none is waiting, at most `fuel` of them. -/
def drain (fuel ran : Nat) : Eval Nat :=
  TaskQueue.drain State.interrupted Failure.interrupted Interpreter.takeNotification ev.deliver fuel
    ran

/-- Delivers notifications until none is waiting, and counts them. -/
def runPending (fuel : Nat) : Eval Nat := do
  let ran ← ev.drain fuel 0
  if 0 < ran then Eval.emit (.drained ran)
  pure ran

/-- Executes a program and then delivers all notifications. -/
def run (fuel : Nat) (program : List Stmt) : Eval Value := do
  let v ← ev.execute program
  let _ ← ev.runPending fuel
  pure v

/-! An interpreter uses the evaluator of a level. -/

theorem execute_level (ctx : Context) (fuel : Nat) (program : List Stmt) :
    (level ctx fuel).execute program = Interpreter.execute ctx fuel program :=
  rfl

theorem runPending_level (ctx : Context) (fuel : Nat) :
    (level ctx fuel).runPending fuel = Interpreter.runPending ctx fuel :=
  rfl

end Evaluator

/-! ## Requests -/

/-- What a host can ask for. -/
inductive Request where
  /-- To execute a program. -/
  | execute (program : List Stmt)
  /-- To execute a program and to deliver all notifications. -/
  | run (program : List Stmt)
  /-- To deliver all notifications. -/
  | runPending
  /-- To deliver one notification. -/
  | runNext
  /-- To evaluate an expression. -/
  | evaluate (e : Expr)
  /-- To execute statements in a block of their own. -/
  | block (body : List Stmt)
  /-- To call a value. -/
  | call (f : Value) (args : List Value) (receiver : Option Value)
  /-- To assign to a variable. -/
  | assign (name : String) (value : Value)
  /-- To stop evaluation at the next occasion. -/
  | interrupt
  /-- To forget all variables, exports and interruptions. -/
  | reset

/-- Answers a request. -/
def Request.perform (ev : Evaluator) (fuel : Nat) : Request → Eval Unit
  | .execute program => ev.execute program >>= fun _ => pure ()
  | .run program => ev.run fuel program >>= fun _ => pure ()
  | .runPending => ev.runPending fuel >>= fun _ => pure ()
  | .runNext => ev.runNext >>= fun _ => pure ()
  | .evaluate e => ev.expr e >>= fun _ => pure ()
  | .block body => ev.block body >>= fun _ => pure ()
  | .call f args receiver => ev.call f args receiver >>= fun _ => pure ()
  | .assign name value => Rule.assignVariable name value
  | .interrupt => fun s => .ok () { s with interrupted := true }
  | .reset => fun s => .ok () s.reset

/-- A request with the services of the host and the fuel that it is answered with. -/
structure Visit where
  /-- The services of the host. -/
  ctx : Context
  /-- The fuel for each evaluation that it starts. -/
  fuel : Nat
  /-- What is asked for. -/
  request : Request

/-- A new interpreter with a limit of calls, beside a store and a log. -/
def State.fresh (limit : Nat) (store : Store) (events : Array Event) : State :=
  { env := { maxCallDepth := limit }, store, events }

/-- The state after a request, unless the fuel ran out. -/
def Visit.after? (evaluator : Context → Nat → Evaluator) (visit : Visit) (s : State) :
    Option State :=
  match visit.request.perform (evaluator visit.ctx visit.fuel) visit.fuel s with
  | .ok _ s => some s
  | .error _ s => some s
  | .exhausted => none

/-- The state after several requests, unless the fuel ran out. -/
def serve? (evaluator : Context → Nat → Evaluator) : List Visit → State → Option State
  | [], s => some s
  | visit :: visits, s => (visit.after? evaluator s).bind (serve? evaluator visits)

end ReactiveScript
