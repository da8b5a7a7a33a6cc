import ReactiveScript.Eval.Fuel
import ReactiveScript.Schedule.Drain
import ReactiveScript.Text.Quoted

/-!
# Interpreters

Programs run one after the other on one state, so that a script can be fed in pieces. Notifications
of observers wait in the queue until it is drained. All operations take the fuel of the evaluations
that they start.
-/

namespace ReactiveScript

namespace Interpreter

variable (ctx : Context) (fuel : Nat)

/-- Evaluates an expression in the innermost scope. -/
def evalExpr (e : Expr) : Eval Value := (Evaluator.level ctx fuel).expr e

/-- Executes a statement in the innermost scope. -/
def execStmt (stmt : Stmt) : Eval Completion := (Evaluator.level ctx fuel).stmt stmt

/-- Executes statements in the innermost scope. -/
def execStmts (body : List Stmt) : Eval Completion := (Evaluator.level ctx fuel).stmts body

/-- Executes statements in a block of their own. -/
def execBlock (body : List Stmt) : Eval Completion := (Evaluator.level ctx fuel).block body

/-- Calls a value. -/
def callValue (f : Value) (args : List Value) (receiver : Option Value) : Eval Value :=
  (Evaluator.level ctx fuel).call f args receiver

/-- The result of a program that completed. -/
def programResult (completion : Completion) : Eval Value :=
  match completion.strayCause? false with
  | some cause => Eval.raise cause
  | none => pure completion.value

/-- Executes a program. The result is the value of its last expression statement. -/
def execute (program : List Stmt) : Eval Value := do
  Eval.emit (.execute program.length)
  let result ← Eval.attempt (execStmts ctx fuel program)
  match result with
  | .error failure => do
    Eval.emit (.failed failure.message)
    Eval.fail failure
  | .ok completion => programResult completion

/-! ## Notifications -/

/-- Carries out a notification. A failing handler is logged and has no further consequence. -/
def notifyHandler (task : Notification) : Eval Unit := do
  let result ← Eval.attempt (callValue ctx fuel task.handler task.args none)
  match result with
  | .ok _ => pure ()
  | .error failure =>
    Eval.emit (.observerFailed (Cause.observerFailed task.name failure.message).message)

/-- Takes the next notification off the queue. -/
def takeNotification (s : State) : Option (Notification × State) :=
  match s.queue.next? with
  | none => none
  | some (task, queue) => some (task, { s with queue })

/-- The state after a notification, unless the fuel ran out. -/
def deliver (task : Notification) (s : State) : Option State :=
  match notifyHandler ctx fuel task s with
  | .ok _ s => some s
  | .error _ s => some s
  | .exhausted => none

/-- Delivers one notification, and says whether there was one. -/
def runNext : Eval Bool := fun s =>
  match takeNotification s with
  | none => .ok false s
  | some (task, s) =>
    match deliver ctx fuel task s with
    | some s => .ok true s
    | none => .exhausted

/-- Delivers notifications until none is waiting, and counts them. -/
def runPending : Eval Nat := do
  let ran ← (fun s =>
    TaskQueue.drain State.interrupted Failure.interrupted takeNotification (deliver ctx fuel) fuel 0
      s : Eval Nat)
  if 0 < ran then Eval.emit (.drained ran)
  pure ran

/-- Executes a program and then delivers all notifications. -/
def run (program : List Stmt) : Eval Value := do
  let v ← execute ctx fuel program
  let _ ← runPending ctx fuel
  pure v

end Interpreter

namespace State

/-- The exported names with their current values. A repeated name counts once. -/
def exportedValues (s : State) : Exports :=
  OrderedMap.ofEntries (s.exports.map fun name => (name, (s.env.get? name).getD .null))

/-- Forgets all variables, exports and interruptions. What is queued stays queued. -/
def reset (s : State) : State :=
  { s with env := s.env.clear, exports := [], interrupted := false }

/-- The start of another interpreter beside the same queue and store. -/
def restart (s : State) (maxCallDepth : Nat) : State :=
  { s with env := { maxCallDepth := maxCallDepth }, exports := [] }

/-- The value that a call by name refers to. -/
def callee (ctx : Context) (s : State) (name : String) : Value :=
  (Rule.lookup? ctx s.env name).getD .null

/-- A description for developers. -/
def describe (ctx : Context) (s : State) : String :=
  let flag := fun b : Bool => if b then "true" else "false"
  "EvalContext \x7b max_call_depth: " ++ s.env.maxCallDepth.repr ++
    ", interrupted: " ++ flag s.interrupted ++
    ", trace: " ++ flag ctx.trace ++
    ", globals: " ++ Text.quotedList (OrderedMap.keys ctx.globals) ++
    ", pending_tasks: " ++ s.queue.pending.repr ++
    ", has_loader: " ++ flag ctx.modules.isSome ++ " \x7d"

end State

/-- Registers a module, in place of one of the same path if there is one. -/
def Context.publish (ctx : Context) (path : String) (exports : Exports) : Context :=
  { ctx with modules := ctx.modules.map fun modules => OrderedMap.put modules path exports }

end ReactiveScript
