import ReactiveScript.Eval.Call
import ReactiveScript.Eval.Module

/-!
# Expressions
-/

namespace ReactiveScript

namespace Rule

/-- The value of a literal. -/
def literal : Literal → Value
  | .null => .null
  | .bool b => .bool b
  | .number n => .number n
  | .string s => .string s

/-- A new function with a snapshot of the visible bindings. -/
def function (name : Option String) (params : List String) (body : List Stmt) : Eval Value :=
  fun s =>
    let f : Function := ⟨name, params, body, s.env.capture⟩
    Eval.allocate (·.newFunction f) s

/-- Evaluates a unary operator. The type of an unknown name is `undefined`. -/
def unary (ctx : Context) (ev : Evaluator) (op : UnaryOp) (operand : Expr) : Eval Value :=
  let general : Eval Value := do
    let v ← ev.expr operand
    Eval.ofExcept (Value.applyUnary op v)
  match op, operand.kind with
  | .typeOf, .ident name => fun s =>
    if (lookup? ctx s.env name).isNone then .ok (.string "undefined") s else general s
  | _, _ => general

/-- Evaluates a binary operator, the left operand first. -/
def binary (ev : Evaluator) (op : BinaryOp) (left right : Expr) : Eval Value := do
  let l ← ev.expr left
  let r ← ev.expr right
  fun s => Eval.ofExcept (Value.applyBinary s.store op l r) s

/-- Whether the left operand of a logical operator is the result. -/
def decides (op : LogicalOp) (v : Value) : Bool :=
  match op with
  | .and => !v.isTruthy
  | .or => v.isTruthy
  | .nullish => v != .null

/-- Evaluates a logical operator. -/
def logical (ev : Evaluator) (op : LogicalOp) (left right : Expr) : Eval Value := do
  let l ← ev.expr left
  if decides op l then pure l else ev.expr right

/-- Evaluates a conditional expression. -/
def conditional (ev : Evaluator) (test consequent alternate : Expr) : Eval Value := do
  let v ← ev.expr test
  if v.isTruthy then ev.expr consequent else ev.expr alternate

/-- Evaluates a list. -/
def list (ev : Evaluator) (items : List Expr) : Eval Value := do
  let values ← ev.exprs items
  Eval.allocate fun st => st.newList values.toArray

/-- Evaluates a record. A repeated key keeps its first position and takes its last value. -/
def record (ev : Evaluator) (entries : List (String × Expr)) : Eval Value := do
  let values ← ev.entries entries
  Eval.allocate fun st => st.newRecord (OrderedMap.ofEntries values)

/-- Evaluates a member access. -/
def member (ctx : Context) (ev : Evaluator) (object : Expr) (property : String) : Eval Value := do
  let v ← ev.expr object
  readMember ctx v property

/-- Evaluates an indexed access. -/
def index (ctx : Context) (ev : Evaluator) (object key : Expr) : Eval Value := do
  let v ← ev.expr object
  let k ← ev.expr key
  readIndex ctx v k

/-- Evaluates what stands at an expression. -/
def exprKind (ctx : Context) (ev : Evaluator) : ExprKind → Eval Value
  | .literal value => fun s => .ok (literal value) s
  | .ident name => ident ctx name
  | .this => this
  | .list items => list ev items
  | .record entries => record ev entries
  | .function name params body => function name params body
  | .unary op operand => unary ctx ev op operand
  | .update op first target => update ctx op first target
  | .binary op left right => binary ev op left right
  | .logical op left right => logical ev op left right
  | .conditional test consequent alternate => conditional ev test consequent alternate
  | .assign op target value => assign ctx ev op target value
  | .member object property => member ctx ev object property
  | .index object key => index ctx ev object key
  | .call e args => callExpr ctx ev e args
  | .importModule source => importModule ctx ev source

/-- Evaluates an expression, unless the evaluation was interrupted. Failures without a position get
that of the expression. -/
def expr (ctx : Context) (ev : Evaluator) (e : Expr) : Eval Value := fun s =>
  if s.interrupted then .error .interrupted s
  else Eval.locating e.span (exprKind ctx ev e.kind) s

end Rule

end ReactiveScript
