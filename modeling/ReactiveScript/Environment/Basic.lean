import ReactiveScript.Environment.Error
import ReactiveScript.Store
import ReactiveScript.Value.Equality

/-!
# Environments

An environment is a stack of scopes. The innermost scope is the last one; each scope but the global
one names its parent, which is where lookups go next. Parents need not be neighbours on the stack:
the scopes of a call hang below the global scope, so that a function never sees the variables of
its caller.

All lookups walk one list, the *chain* of the innermost scope: the scope itself, its parent, and so
on up to the global scope.
-/

namespace ReactiveScript

/-- One handler that watches several variables. -/
structure Registration where
  /-- The watched variables. -/
  names : List String
  /-- The handler. -/
  handler : Value
  deriving DecidableEq

/-- A variable. -/
structure Binding where
  /-- How it was declared. -/
  mode : Mode
  /-- Its value. -/
  value : Value
  /-- Handlers that watch this variable alone, in the order of registration. -/
  observers : List Value := []
  /-- Handlers that watch this variable among others, in the order of registration. -/
  registrations : List Registration := []
  /-- Where it was declared. -/
  span : Option Span := none
  deriving DecidableEq

/-- Whether any handler watches a variable. -/
def Binding.isObserved (b : Binding) : Bool := !b.observers.isEmpty || !b.registrations.isEmpty

/-- The kinds of scopes. -/
inductive ScopeKind where
  /-- The outermost scope. -/
  | global
  /-- The scope of a block or a loop. -/
  | block
  /-- The copy of a function's closure in a call. -/
  | closure
  /-- The parameters and variables of a call. -/
  | function
  deriving DecidableEq, Repr

/-- A scope. -/
structure Scope where
  /-- What the scope belongs to. -/
  kind : ScopeKind
  /-- Where lookups continue. -/
  parent : Option Nat
  /-- The variables in the order of their declaration. -/
  bindings : OrderedMap Binding := []
  deriving DecidableEq

/-- The outermost scope before anything is declared. -/
def Scope.global : Scope := { kind := .global, parent := none }

/-- A stack of scopes and the number of active calls. -/
structure Environment where
  /-- The scopes, from the global one to the innermost. -/
  scopes : Array Scope := #[Scope.global]
  /-- The number of active calls. -/
  callDepth : Nat := 0
  /-- The greatest number of active calls. -/
  maxCallDepth : Nat := 1000
  deriving DecidableEq

/-- A change of a variable's value, with the handlers that are to be told. -/
structure Mutation where
  /-- The variable. -/
  name : String
  /-- The value before. -/
  old : Value
  /-- The value after. -/
  new : Value
  /-- The handlers of this variable alone. -/
  observers : List Value
  /-- The handlers of several variables. -/
  registrations : List Registration
  deriving DecidableEq

namespace Environment

/-! ## Scopes and the chain -/

/-- The index of the innermost scope. -/
def current (env : Environment) : Nat := env.scopes.size - 1

/-- The scope at an index. -/
def scope (env : Environment) (i : Nat) : Scope := env.scopes.getD i Scope.global

/-- The indices met by at most `count` steps from a scope towards the global one. -/
def chainFrom (scopes : Array Scope) : (count : Nat) → (i : Nat) → List Nat
  | 0, _ => []
  | count + 1, i =>
    i :: match (scopes.getD i Scope.global).parent with
      | some parent => chainFrom scopes count parent
      | none => []

/-- The indices of the scopes that lookups visit, in order. -/
def chain (env : Environment) : List Nat := chainFrom env.scopes env.scopes.size env.current

/-- Changes the scope at an index. -/
def modifyScope (env : Environment) (i : Nat) (f : OrderedMap Binding → OrderedMap Binding) :
    Environment :=
  { env with scopes := env.scopes.modify i fun s => { s with bindings := f s.bindings } }

/-- The number of scopes. -/
def depth (env : Environment) : Nat := env.scopes.size

/-- Whether the global scope is the innermost. -/
def isGlobal (env : Environment) : Bool := env.scopes.size == 1

/-! ## Entering and leaving scopes -/

/-- Enters a block. -/
def pushBlock (env : Environment) : Environment :=
  { env with scopes := env.scopes.push { kind := .block, parent := some env.current } }

/-- Leaves the innermost scope, unless it is the only one. -/
def pop (env : Environment) : Environment :=
  if 1 < env.scopes.size then { env with scopes := env.scopes.pop } else env

/-- The variables of a closure in a call: fresh bindings for all that was captured, and the
function itself under its own name if nothing captured has that name. -/
def closureBindings (f : Function) (self : Value) : OrderedMap Binding :=
  let captured : OrderedMap Binding :=
    f.closure.map fun entry => (entry.1, { mode := entry.2.mode, value := entry.2.value })
  match f.name with
  | some name =>
    if OrderedMap.has captured name then captured
    else OrderedMap.put captured name { mode := .function, value := self }
  | none => captured

/-- Enters the two scopes of a call: the closure, whose parent is the global scope, and in it the
scope of the parameters. -/
def pushCall (env : Environment) (f : Function) (self : Value) : Environment :=
  let scopes := env.scopes.push
    { kind := .closure, parent := some 0, bindings := closureBindings f self }
  { env with scopes := scopes.push { kind := .function, parent := some (scopes.size - 1) } }

/-- Leaves the two scopes of a call. -/
def popCall (env : Environment) : Environment := env.pop.pop

/-- Counts a call, unless the limit is reached. -/
def enterCall (env : Environment) : Except BindingError Environment :=
  if env.callDepth < env.maxCallDepth then .ok { env with callDepth := env.callDepth + 1 }
  else .error (.stackOverflow env.callDepth env.maxCallDepth)

/-- Counts the end of a call. -/
def exitCall (env : Environment) : Environment := { env with callDepth := env.callDepth - 1 }

/-- Starts a call: counts it and enters its scopes. -/
def beginCall (env : Environment) (f : Function) (self : Value) :
    Except BindingError Environment :=
  match env.enterCall with
  | .ok env => .ok (env.pushCall f self)
  | .error e => .error e

/-- Ends a call that was started. -/
def endCall (env : Environment) : Environment := env.popCall.exitCall

/-- Back to an empty global scope. -/
def clear (env : Environment) : Environment := { maxCallDepth := env.maxCallDepth }

/-! ## Lookup -/

/-- The first scope on the chain that binds a name. -/
def position? (env : Environment) (name : String) : Option Nat :=
  env.chain.find? fun i => OrderedMap.has (env.scope i).bindings name

/-- The binding that a name refers to. -/
def resolve? (env : Environment) (name : String) : Option Binding :=
  env.chain.findSome? fun i => OrderedMap.find? (env.scope i).bindings name

/-- The value of a name. -/
def get? (env : Environment) (name : String) : Option Value :=
  (env.resolve? name).map (·.value)

/-- Whether a name is bound. -/
def contains (env : Environment) (name : String) : Bool := (env.position? name).isSome

/-- Whether the innermost scope binds a name. -/
def containsLocally (env : Environment) (name : String) : Bool :=
  OrderedMap.has (env.scope env.current).bindings name

/-- The names of the innermost scope. -/
def localNames (env : Environment) : List String :=
  OrderedMap.keys (env.scope env.current).bindings

/-- Adds the bindings of a scope that are not shadowed by those already seen. -/
def addVisible (seen : OrderedMap Binding) : OrderedMap Binding → OrderedMap Binding
  | [] => seen
  | (name, b) :: rest =>
    addVisible (if OrderedMap.has seen name then seen else seen ++ [(name, b)]) rest

/-- All visible bindings: inner scopes first, each in the order of declaration. -/
def visible (env : Environment) : OrderedMap Binding :=
  env.chain.foldl (fun seen i => addVisible seen (env.scope i).bindings) []

/-- All visible names. -/
def allNames (env : Environment) : List String := OrderedMap.keys env.visible

/-- A snapshot of all visible bindings. -/
def capture (env : Environment) : Closure :=
  env.visible.map fun entry => (entry.1, { value := entry.2.value, mode := entry.2.mode })

/-! ## Declaration -/

/-- Whether `var` declarations land in a scope. -/
def takesVars (s : Scope) : Bool := s.kind == .function || s.kind == .global

/-- The scope in which `var` declares: the nearest scope of a call, or the global one. -/
def varScope (env : Environment) : Nat :=
  (env.chain.find? fun i => takesVars (env.scope i)).getD (env.chain.getLastD 0)

/-- The scope in which a mode declares. -/
def declarationScope (env : Environment) (mode : Mode) : Nat :=
  if mode = .mutable then env.varScope else env.current

/-- Declares a name that its scope does not hold yet. -/
def declare (env : Environment) (mode : Mode) (name : String) (value : Value)
    (span : Option Span) : Except BindingError Environment :=
  let target := env.declarationScope mode
  if OrderedMap.has (env.scope target).bindings name then .error (.duplicate name)
  else
    let b : Binding := { mode := mode, value := value, span := span }
    .ok (env.modifyScope target fun bindings => bindings ++ [(name, b)])

/-- Sets a fresh binding in the innermost scope, in place of one of the same name if there is one. -/
def define (env : Environment) (name : String) (value : Value) (mode : Mode) : Environment :=
  let b : Binding := { mode := mode, value := value }
  env.modifyScope env.current fun bindings => OrderedMap.put bindings name b

/-- Sets the value of a binding of the innermost scope. -/
def setLocal (env : Environment) (name : String) (value : Value) : Environment :=
  env.modifyScope env.current fun bindings =>
    OrderedMap.adjust bindings name fun b => { b with value }

/-! ## Assignment and observers -/

/-- Assigns to the binding that a name refers to, and reports the change. Assigning the same value
is no change. -/
def assign (env : Environment) (name : String) (value : Value) :
    Except BindingError (Environment × Option Mutation) :=
  match env.position? name with
  | none => .error (.undeclared name)
  | some i =>
    match OrderedMap.find? (env.scope i).bindings name with
    | none => .error (.undeclared name)
    | some b =>
      if !b.mode.isMutable then .error (.immutable name)
      else if b.value.sameValue value then .ok (env, none)
      else
        let mutation : Mutation :=
          { name := name, old := b.value, new := value, observers := b.observers,
            registrations := b.registrations }
        .ok (env.modifyScope i fun bindings =>
          OrderedMap.adjust bindings name fun b => { b with value }, some mutation)

/-- Changes the binding that a name refers to, if there is one. -/
def modifyBinding (env : Environment) (name : String) (f : Binding → Binding) : Environment :=
  match env.position? name with
  | none => env
  | some i => env.modifyScope i fun bindings => OrderedMap.adjust bindings name f

/-- Lets a handler watch one variable. -/
def observe (env : Environment) (name : String) (handler : Value) :
    Except BindingError Environment :=
  if env.contains name then
    .ok (env.modifyBinding name fun b => { b with observers := b.observers ++ [handler] })
  else .error (.unobservable name)

/-- Lets a handler watch several variables. It is attached once for each time a name is given. -/
def observeMany (env : Environment) (names : List String) (handler : Value) :
    Except BindingError Environment :=
  match names.find? fun name => !env.contains name with
  | some missing => .error (.unobservable missing)
  | none =>
    let registration : Registration := ⟨names, handler⟩
    .ok (names.foldl (fun env name => env.modifyBinding name fun b =>
      { b with registrations := b.registrations ++ [registration] }) env)

end Environment

end ReactiveScript
