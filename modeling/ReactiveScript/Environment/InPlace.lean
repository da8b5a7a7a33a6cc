import ReactiveScript.Environment.Basic

/-!
# Operations in place

The operations that may be refused, step by step on an environment that is changed in place: checks
and single writes, in order. A refusal leaves what was written before it, so an operation that
checks too late would leave a part of its work behind.
-/

namespace ReactiveScript

namespace Environment

/-- A computation that works on an environment in place. A refusal leaves the environment as far as
it was changed until then. -/
abbrev InPlace (α : Type) := EStateM BindingError Environment α

namespace InPlace

/-- The scope and the binding that a name refers to. -/
def resolve (name : String) (refusal : BindingError) : InPlace (Nat × Binding) := do
  let env ← get
  match env.position? name with
  | none => throw refusal
  | some i =>
    match OrderedMap.find? (env.scope i).bindings name with
    | none => throw refusal
    | some b => pure (i, b)

/-- Writes to a binding of a scope. -/
def write (i : Nat) (name : String) (f : Binding → Binding) : InPlace Unit :=
  modify fun env => env.modifyScope i fun bindings => OrderedMap.adjust bindings name f

/-- Declares a name, unless its scope holds it already. -/
def declare (mode : Mode) (name : String) (value : Value) (span : Option Span) :
    InPlace Unit := do
  let env ← get
  let target := env.declarationScope mode
  if OrderedMap.has (env.scope target).bindings name then throw (.duplicate name)
  else
    let b : Binding := { mode := mode, value := value, span := span }
    modify fun env => env.modifyScope target fun bindings => OrderedMap.put bindings name b

/-- Assigns to the binding that a name refers to, unless there is none or it is a constant. -/
def assign (name : String) (value : Value) : InPlace (Option Mutation) := do
  let (i, b) ← resolve name (.undeclared name)
  if !b.mode.isMutable then throw (.immutable name)
  else if b.value.sameValue value then pure none
  else do
    let mutation : Mutation :=
      { name := name, old := b.value, new := value, observers := b.observers,
        registrations := b.registrations }
    write i name fun b => { b with value }
    pure (some mutation)

/-- Lets a handler watch one variable, if there is such a variable. -/
def observe (name : String) (handler : Value) : InPlace Unit := do
  let (i, _) ← resolve name (.unobservable name)
  write i name fun b => { b with observers := b.observers ++ [handler] }

/-- Checks that all names refer to bindings, one after the other. -/
def checkBound : List String → InPlace Unit
  | [] => pure ()
  | name :: names => do
    let env ← get
    if env.contains name then checkBound names else throw (.unobservable name)

/-- Attaches a registration to the bindings of names, one after the other. -/
def attach (registration : Registration) : List String → InPlace Unit
  | [] => pure ()
  | name :: names => do
    modify fun env => env.modifyBinding name fun b =>
      { b with registrations := b.registrations ++ [registration] }
    attach registration names

/-- Lets a handler watch several variables, once it is known that there are such variables. -/
def observeMany (names : List String) (handler : Value) : InPlace Unit := do
  checkBound names
  attach ⟨names, handler⟩ names

/-- Counts a call, unless the limit is reached. -/
def enterCall : InPlace Unit := do
  let env ← get
  if env.maxCallDepth ≤ env.callDepth then
    throw (.stackOverflow env.callDepth env.maxCallDepth)
  else set { env with callDepth := env.callDepth + 1 }

/-- Starts a call: counts it, and then enters its scopes. -/
def beginCall (f : Function) (self : Value) : InPlace Unit := do
  enterCall
  modify fun env => env.pushCall f self

end InPlace

end Environment

end ReactiveScript
