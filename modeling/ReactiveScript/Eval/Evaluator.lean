import ReactiveScript.Eval.Basic

/-!
# Evaluators

The rules of the language are written against an `Evaluator` for the parts of a phrase. An
evaluator that allows one more level of nesting results from applying the rules once; the chain of
evaluators built in this way is tied together elsewhere. Rules therefore never call themselves, and
what is preserved by each rule is preserved by evaluation.
-/

namespace ReactiveScript

/-- How the parts of a phrase are evaluated. -/
structure Evaluator where
  /-- Evaluates an expression. -/
  expr : Expr → Eval Value
  /-- Executes a statement. -/
  stmt : Stmt → Eval Completion
  /-- Executes statements in a block of their own. -/
  block : List Stmt → Eval Completion
  /-- Calls a value with arguments and a receiver. -/
  call : Value → List Value → Option Value → Eval Value
  /-- The number of rounds allowed to a loop. -/
  rounds : Nat

namespace Evaluator

variable (ev : Evaluator)

/-- Evaluates expressions from left to right. -/
def exprs : List Expr → Eval (List Value)
  | [] => pure []
  | e :: rest => do
    let v ← ev.expr e
    let vs ← exprs rest
    pure (v :: vs)

/-- Evaluates the entries of a record from left to right. -/
def entries : List (String × Expr) → Eval (List (String × Value))
  | [] => pure []
  | (key, e) :: rest => do
    let v ← ev.expr e
    let vs ← entries rest
    pure ((key, v) :: vs)

/-- What one statement of a list asks for. -/
inductive Step where
  /-- The list goes on, with the value of its last expression statement. -/
  | next (last : Value)
  /-- The list ends. -/
  | leave (completion : Completion)

/-- One statement of a list. A `when` whose guard holds ends the list with its body; other
statements end it if they complete abruptly. -/
def step (last : Value) : Stmt → Eval Step
  | .node span (.whenGuard test body) => do
    Eval.checkInterrupt
    let guard ← Eval.locating span (ev.expr test)
    if guard.isTruthy then do
      let completion ← ev.block body
      pure (.leave completion)
    else pure (.next last)
  | .node span kind => do
    let completion ← ev.stmt (.node span kind)
    match completion, kind with
    | .normal v, .expression _ => pure (.next v)
    | .normal _, _ => pure (.next last)
    | completion, _ => pure (.leave completion)

/-- Executes the statements of a list in order, after others with the given value. -/
def stmtsFrom (last : Value) : List Stmt → Eval Completion
  | [] => fun s => .ok (.normal last) s
  | stmt :: rest => fun s =>
    match step ev last stmt s with
    | .ok (.next last) s => stmtsFrom last rest s
    | .ok (.leave completion) s => .ok completion s
    | .error e s => .error e s
    | .exhausted => .exhausted

/-- Executes the statements of a list in order. The value is that of the last expression
statement. -/
def stmts (body : List Stmt) : Eval Completion := ev.stmtsFrom .null body

end Evaluator

end ReactiveScript
