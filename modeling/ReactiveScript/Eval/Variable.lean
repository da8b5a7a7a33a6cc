import ReactiveScript.Eval.Evaluator
import ReactiveScript.Value.Operator
import ReactiveScript.Value.Property

/-!
# Variables and assignment

A change of a variable is announced to its observers by queued notifications: first to the handlers
of that variable alone, then to the handlers of several variables, each in the order of
registration. Nothing runs before the queue is drained.
-/

namespace ReactiveScript

namespace Rule

/-- The name under which a call finds its receiver. -/
def thisName : String := "this"

/-- The value of a name: its binding, or else the global of the host. -/
def lookup? (ctx : Context) (env : Environment) (name : String) : Option Value :=
  match env.get? name with
  | some v => some v
  | none => OrderedMap.find? ctx.globals name

/-- Evaluates a name. -/
def ident (ctx : Context) (name : String) : Eval Value := fun s =>
  match lookup? ctx s.env name with
  | some v => .ok v s
  | none => .error (.of (.unknownIdentifier name)) s

/-- Evaluates `this`, which is `null` outside of calls. -/
def this : Eval Value := fun s => .ok ((s.env.get? thisName).getD .null) s

/-! ## Notifications -/

/-- What a handler of one variable is called with. -/
def changeArgs (m : Mutation) : List Value := [m.old, m.new, .string m.name]

/-- The values of watched variables after a change. -/
def watchedValues (env : Environment) (names : List String) : OrderedMap Value :=
  OrderedMap.ofEntries (names.map fun name => (name, (env.get? name).getD .null))

/-- The record that a handler of several variables is called with. -/
def changeInfo (env : Environment) (m : Mutation) (names : List String) (st : Store) :
    Value × Store :=
  let (values, st) := st.newRecord (watchedValues env names)
  st.newRecord [("name", .string m.name), ("values", values), ("old", m.old), ("new", m.new)]

/-- Queues a notification. -/
def enqueue (task : Notification) (s : State) : State :=
  { s with queue := s.queue.schedule task }

/-- Notifies one handler of several variables. -/
def announce (m : Mutation) (s : State) (r : Registration) : State :=
  let (info, store) := changeInfo s.env m r.names s.store
  enqueue { name := m.name, handler := r.handler, args := [info] } { s with store }

/-- Notifies all handlers of a change. -/
def notify (m : Mutation) (s : State) : State :=
  let s := m.observers.foldl (fun s handler =>
    enqueue { name := m.name, handler, args := changeArgs m } s) s
  m.registrations.foldl (announce m) s

/-- Assigns to a variable and queues the notifications. -/
def assignVariable (name : String) (value : Value) : Eval Unit := fun s =>
  match s.env.assign name value with
  | .error e => .error (.of (.binding e)) s
  | .ok (env, none) => .ok () { s with env }
  | .ok (env, some m) => .ok () (notify m { s with env })

/-! ## Assignment -/

/-- The value to assign: that of the right-hand side, combined with the old value if there is an
operator. The old value is read first. -/
def newValue (ev : Evaluator) (op : Option BinaryOp) (old : Eval Value) (e : Expr) : Eval Value :=
  match op with
  | none => ev.expr e
  | some op => do
    let current ← old
    let rhs ← ev.expr e
    let st ← Eval.store
    Eval.ofExcept (Value.applyBinary st op current rhs)

/-- Reads a member in the current store. -/
def readMember (ctx : Context) (object : Value) (property : String) : Eval Value := fun s =>
  Eval.ofExcept (Value.getMember ctx.library s.store object property) s

/-- Reads an indexed property in the current store. -/
def readIndex (ctx : Context) (object key : Value) : Eval Value := fun s =>
  Eval.ofExcept (Value.getIndex ctx.library s.store object key) s

/-- Evaluates an assignment. -/
def assign (ctx : Context) (ev : Evaluator) (op : Option BinaryOp) (target e : Expr) :
    Eval Value :=
  match target.kind with
  | .ident name => do
    let v ← newValue ev op (ident ctx name) e
    assignVariable name v
    pure v
  | .member object property => do
    let object ← ev.expr object
    let v ← newValue ev op (readMember ctx object property) e
    Eval.tryWrite fun st => Value.setMember ctx.library st object property v
    pure v
  | .index object key => do
    let object ← ev.expr object
    let key ← ev.expr key
    let v ← newValue ev op (readIndex ctx object key) e
    Eval.tryWrite fun st => Value.setIndex ctx.library st object key v
    pure v
  | _ => Eval.raise (.typeMismatch "invalid assignment target")

/-- The number after counting. -/
def count (op : UpdateOp) (n : Number) : Number :=
  match op with
  | .increment => n + 1
  | .decrement => n - 1

/-- Evaluates a counting expression. Only variables that hold numbers can be counted. -/
def update (ctx : Context) (op : UpdateOp) (first : Bool) (target : Expr) : Eval Value :=
  match target.kind with
  | .ident name => do
    let old ← ident ctx name
    match old with
    | .number n => do
      assignVariable name (.number (count op n))
      pure (.number (if first then count op n else n))
    | old =>
      Eval.raise (.typeMismatch ("`" ++ op.symbol ++ "` needs a number, but `" ++ name ++ "` is " ++
        old.typeName))
  | _ => Eval.raise (.typeMismatch ("`" ++ op.symbol ++ "` needs a variable operand"))

end Rule

end ReactiveScript
