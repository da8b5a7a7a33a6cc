import ReactiveScript.Eval.Expression
import ReactiveScript.Eval.Loop

/-!
# Statements
-/

namespace ReactiveScript

namespace Rule

/-- The initial value of a declared variable. -/
def initial (ev : Evaluator) : Option Expr → Eval Value
  | none => pure .null
  | some e => ev.expr e

/-- Executes the declarators of a declaration in order. A refusal is placed at the declaration,
whether its position is known or not. -/
def declare (ev : Evaluator) (mode : Mode) (span : Span) :
    List (String × Option Expr) → Eval Completion
  | [] => pure .done
  | (name, init) :: rest => do
    let v ← initial ev init
    (fun s => (Eval.tryEnv (fun env => env.declare mode name v (some span)) s).mapError
      (·.withSpan span))
    declare ev mode span rest

/-- Executes a function declaration. -/
def declareFunction (ctx : Context) (span : Span) (name : Option String) (params : List String)
    (body : List Stmt) : Eval Completion :=
  match name with
  | none => Eval.fail (.raised (.typeMismatch "function declaration needs a name") (some span))
  | some f => do
    let v ← function (some f) params body
    Eval.tryEnv fun env => env.declare .function f v (some span)
    Eval.emitIf ctx.trace (.declared f params.length)
    pure .done

/-- Executes an `if` statement. -/
def ifElse (ev : Evaluator) (test : Expr) (consequent : Stmt) (alternate : Option Stmt) :
    Eval Completion := do
  let v ← ev.expr test
  if v.isTruthy then ev.stmt consequent
  else
    match alternate with
    | some stmt => ev.stmt stmt
    | none => pure .done

/-- Executes a `when` statement that stands alone. -/
def whenGuard (ev : Evaluator) (test : Expr) (body : List Stmt) : Eval Completion := do
  let v ← ev.expr test
  if v.isTruthy then ev.block body else pure .done

/-! ## Switch -/

/-- Executes the bodies of cases one after the other, until one completes abruptly. A `break` ends
the switch. -/
def fallThrough (ev : Evaluator) : List (Option Expr × List Stmt) → Eval Completion
  | [] => pure .done
  | (_, body) :: rest => do
    let completion ← ev.stmts body
    match completion with
    | .normal _ => fallThrough ev rest
    | .broke => pure .done
    | completion => pure completion

/-- Finds the first case that is a default or whose test is strictly equal to a value, and falls
through from there. -/
def chooseCase (ev : Evaluator) (v : Value) : List (Option Expr × List Stmt) → Eval Completion
  | [] => pure .done
  | (none, body) :: rest => fallThrough ev ((none, body) :: rest)
  | (some test, body) :: rest => do
    let t ← ev.expr test
    if v.strictEquals t then fallThrough ev ((some test, body) :: rest) else chooseCase ev v rest

/-- Executes a `switch` statement. All cases share one block. -/
def switch (ev : Evaluator) (discriminant : Expr) (cases : List (Option Expr × List Stmt)) :
    Eval Completion := do
  let v ← ev.expr discriminant
  Eval.inBlock (chooseCase ev v cases)

/-! ## Failures -/

/-- Executes a handler with the caught value. -/
def catchClause (ev : Evaluator) (param : Option String) (body : List Stmt) (thrown : Value) :
    Eval Completion :=
  Eval.inBlock do
    match param with
    | some name => do
      Eval.modifyEnv fun env => env.define name thrown .blockMutable
      ev.stmts body
    | none => ev.stmts body

/-- What the block of a `try` statement and its handler come to. The handler runs if the block
failed in a way that can be caught. -/
def handled (ev : Evaluator) (result : Except Failure Completion) :
    Option (Option String × List Stmt) → Eval (Except Failure Completion)
  | none => pure result
  | some (param, body) =>
    match result with
    | .ok completion => pure (.ok completion)
    | .error failure =>
      if failure.isCatchable then do
        Eval.emit (.caught failure.message)
        Eval.attempt (catchClause ev param body failure.thrownValue)
      else pure (.error failure)

/-- Runs a finalizer after everything else. If it completes abruptly or fails, that takes over,
except that its failure gives way to one of the block. -/
def finalized (ev : Evaluator) (blockFailed : Bool) (outcome : Except Failure Completion) :
    Option (List Stmt) → Eval Completion
  | none => Eval.ofResult outcome
  | some body => do
    let result ← Eval.attempt (ev.block body)
    match result with
    | .ok completion =>
      if completion.isAbrupt then pure completion else Eval.ofResult outcome
    | .error failure =>
      if blockFailed && failure.isCatchable then do
        Eval.emit (.discarded failure.message)
        Eval.ofResult outcome
      else Eval.fail failure

/-- Whether a result is a failure. -/
def isFailure : Except Failure Completion → Bool
  | .ok _ => false
  | .error _ => true

/-- Executes a `try` statement. -/
def tryCatch (ev : Evaluator) (block : List Stmt) (handler : Option (Option String × List Stmt))
    (finalizer : Option (List Stmt)) : Eval Completion := do
  let result ← Eval.attempt (ev.block block)
  let outcome ← handled ev result handler
  finalized ev (isFailure result) outcome finalizer

/-- Executes a `throw` statement. -/
def throwValue (ev : Evaluator) (span : Span) (e : Expr) : Eval Completion := do
  let v ← ev.expr e
  let st ← Eval.store
  Eval.fail (.raised (.thrown v (v.display st)) (if span.isKnown then some span else none))

/-! ## Observers -/

/-- Registers a handler with one variable or with several. -/
def register (targets : List String) (handler : Value) (env : Environment) :
    Except BindingError Environment :=
  match targets with
  | [name] => env.observe name handler
  | names => env.observeMany names handler

/-- Executes an `observe` statement. -/
def observe (ev : Evaluator) (targets : List String) (handler : Expr) : Eval Completion := do
  let v ← ev.expr handler
  if v.isCallable then do
    Eval.tryEnv (register targets v)
    Eval.emit (.observing targets)
    pure .done
  else Eval.raise (.notCallable ("observer of " ++ ", ".intercalate targets))

/-! ## All statements -/

/-- Executes a `return` statement. -/
def ret (ev : Evaluator) (e : Option Expr) : Eval Completion := do
  let v ← initial ev e
  pure (.returned v)

/-- Executes an expression statement. -/
def expression (ev : Evaluator) (e : Expr) : Eval Completion := do
  let v ← ev.expr e
  pure (.normal v)

/-- Executes what stands at a statement. -/
def stmtKind (ctx : Context) (ev : Evaluator) (span : Span) : StmtKind → Eval Completion
  | .expression e => expression ev e
  | .declare kind declarators => declare ev kind.mode span declarators
  | .function name params body => declareFunction ctx span name params body
  | .block body => ev.block body
  | .ifElse test consequent alternate => ifElse ev test consequent alternate
  | .whileLoop test body => whileLoop ev test body
  | .doWhile body test => doWhile ev body test
  | .forLoop init test update body => forLoop ev init test update body
  | .forIn binding object body => forIn ctx ev binding object body
  | .forOf binding iterable body => forOf ctx ev binding iterable body
  | .switch discriminant cases => switch ev discriminant cases
  | .tryCatch block handler finalizer => tryCatch ev block handler finalizer
  | .throw e => throwValue ev span e
  | .ret e => ret ev e
  | .breakLoop => pure .broke
  | .continueLoop => pure .continued
  | .whenGuard test body => whenGuard ev test body
  | .otherwise body => ev.block body
  | .observe targets handler => observe ev targets handler
  | .importNames specifiers source => importNames ctx span specifiers source
  | .exported stmt => exported ev stmt
  | .empty => pure .done

/-- Executes a statement, unless the evaluation was interrupted. Failures without a position get
that of the statement. -/
def stmt (ctx : Context) (ev : Evaluator) (st : Stmt) : Eval Completion := fun s =>
  if s.interrupted then .error .interrupted s
  else
    Eval.locating st.span (do
      Eval.emitIf ctx.trace (.statement st.kind.name st.span)
      stmtKind ctx ev st.span st.kind) s

/-- Executes statements in a block of their own. -/
def block (ev : Evaluator) (body : List Stmt) : Eval Completion := Eval.inBlock (ev.stmts body)

end Rule

end ReactiveScript
