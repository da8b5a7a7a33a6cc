import ReactiveScript.Eval.Variable

/-!
# Calls

A call of a function runs its body in two new scopes: a copy of the closure, and inside of it the
receiver and the parameters. Builtins and methods of host objects run host code.
-/

namespace ReactiveScript

namespace Rule

/-- Binds parameters to arguments. Missing arguments are `null`, and surplus ones are dropped. -/
def bindParams (env : Environment) : List String → List Value → Environment
  | [], _ => env
  | param :: params, [] => bindParams (env.define param .null .mutable) params []
  | param :: params, arg :: args => bindParams (env.define param arg .mutable) params args

/-- Binds the receiver and the parameters of a call. -/
def bindCall (env : Environment) (params : List String) (args : List Value)
    (receiver : Option Value) : Environment :=
  bindParams (env.define thisName (receiver.getD .null) .immutable) params args

/-- The value of a call whose body completed. -/
def callResult (completion : Completion) : Eval Value :=
  match completion.strayCause? true with
  | some cause => Eval.raise cause
  | none =>
    match completion with
    | .returned v => pure v
    | _ => pure .null

/-- The body of a call, in its scopes. -/
def callBody (ctx : Context) (ev : Evaluator) (f : Function) (args : List Value)
    (receiver : Option Value) : Eval Value := do
  let env ← Eval.environment
  Eval.emitIf ctx.trace (.call f.displayName env.callDepth)
  Eval.modifyEnv fun env => bindCall env f.params args receiver
  let completion ← ev.stmts f.body
  callResult completion

/-- Calls a function of a script. -/
def callFunction (ctx : Context) (ev : Evaluator) (ref : Ref) (args : List Value)
    (receiver : Option Value) : Eval Value := fun s =>
  let f := s.store.function ref
  Eval.inCall f (.function ref) (callBody ctx ev f args receiver) s

/-- Calls a builtin, after checking the number of arguments if that is fixed. -/
def callBuiltin (ctx : Context) (ref : Ref) (args : List Value) : Eval Value := fun s =>
  let b := s.store.builtin ref
  match b.arity with
  | some arity =>
    if args.length = arity then Eval.hostCall b.name (ctx.library.builtin b.name args) s
    else Eval.raise (.arityMismatch b.name arity args.length) s
  | none => Eval.hostCall b.name (ctx.library.builtin b.name args) s

/-- Calls a method of a host object. -/
def callMethod (ctx : Context) (ref : Ref) (method : String) (args : List Value) : Eval Value :=
  fun s =>
    Eval.hostCall ((s.store.host ref).typeName ++ "." ++ method)
      (fun st => ctx.library.invoke st ref method args) s

/-- Calls a value. -/
def call (ctx : Context) (ev : Evaluator) (f : Value) (args : List Value)
    (receiver : Option Value) : Eval Value :=
  match f with
  | .function ref => callFunction ctx ev ref args receiver
  | .builtin ref => callBuiltin ctx ref args
  | .method ref method => callMethod ctx ref method args
  | other => Eval.raise (.notCallable other.typeName)

/-- How a callee is named in messages. -/
def calleeName : Expr → String
  | .node _ (.ident name) => name
  | .node _ .this => thisName
  | .node _ (.member object property) => calleeName object ++ "." ++ property
  | .node _ (.index object _) => calleeName object ++ "[...]"
  | _ => "expression"

/-- The callee of a call and its receiver: a member is called on its object. -/
def callee (ctx : Context) (ev : Evaluator) (e : Expr) : Eval (Value × Option Value) :=
  match e.kind with
  | .member object property => do
    let receiver ← ev.expr object
    let f ← readMember ctx receiver property
    pure (f, some receiver)
  | .index object key => do
    let receiver ← ev.expr object
    let key ← ev.expr key
    let f ← readIndex ctx receiver key
    pure (f, some receiver)
  | _ => do
    let f ← ev.expr e
    pure (f, none)

/-- Evaluates a call. The arguments are evaluated even if the callee cannot be called. -/
def callExpr (ctx : Context) (ev : Evaluator) (e : Expr) (args : List Expr) : Eval Value := do
  let (f, receiver) ← callee ctx ev e
  let values ← ev.exprs args
  if f.isCallable then ev.call f values receiver else Eval.raise (.notCallable (calleeName e))

end Rule

end ReactiveScript
