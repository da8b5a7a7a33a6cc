import ReactiveScript.OrderedMap
import ReactiveScript.Program.Tree
import ReactiveScript.Value.Basic

/-!
# The store

Everything that values refer to, and the lines written to the console. Host code works on a store
and on nothing else: it cannot reach the variables of a running program.
-/

namespace ReactiveScript

/-- A binding as it was when a function was created. -/
structure Captured where
  /-- The value at that time. -/
  value : Value
  /-- The declaration mode, which holds again in each call. -/
  mode : Mode
  deriving DecidableEq

/-- The bindings visible where a function was created. -/
abbrev Closure := OrderedMap Captured

/-- A function of a script. -/
structure Function where
  /-- The name, unless the function is anonymous. -/
  name : Option String
  /-- The parameters. -/
  params : List String
  /-- The body. -/
  body : List Stmt
  /-- A snapshot of the bindings visible at the definition. -/
  closure : Closure

/-- The name of a function in messages. -/
def Function.displayName (f : Function) : String := f.name.getD "<anonymous>"

/-- A function provided by the host. The name selects its behaviour. -/
structure Builtin where
  /-- The name. -/
  name : String
  /-- The number of arguments, unless any number will do. -/
  arity : Option Nat
  deriving DecidableEq, Repr

/-- An object provided by the host. The type name selects its behaviour. -/
structure HostObject where
  /-- The name of its type. -/
  typeName : String
  /-- What the object holds. -/
  fields : List (String × Value)
  deriving DecidableEq

/-- The tables behind references, and the console. -/
structure Store where
  lists : Array (Array Value) := #[]
  records : Array (OrderedMap Value) := #[]
  functions : Array Function := #[]
  builtins : Array Builtin := #[]
  hosts : Array HostObject := #[]
  /-- Lines written to the console. -/
  console : Array String := #[]
  deriving Inhabited

namespace Store

/-- The elements of a list. -/
def list (st : Store) (ref : Ref) : Array Value := st.lists.getD ref #[]

/-- The entries of a record. -/
def record (st : Store) (ref : Ref) : OrderedMap Value := st.records.getD ref []

/-- A function. -/
def function (st : Store) (ref : Ref) : Function := st.functions.getD ref ⟨none, [], [], []⟩

/-- A builtin. -/
def builtin (st : Store) (ref : Ref) : Builtin := st.builtins.getD ref ⟨"", none⟩

/-- A host object. -/
def host (st : Store) (ref : Ref) : HostObject := st.hosts.getD ref ⟨"", []⟩

/-- Stores a new list. -/
def newList (st : Store) (items : Array Value) : Value × Store :=
  (.list st.lists.size, { st with lists := st.lists.push items })

/-- Stores a new record. -/
def newRecord (st : Store) (entries : OrderedMap Value) : Value × Store :=
  (.record st.records.size, { st with records := st.records.push entries })

/-- Stores a new function. -/
def newFunction (st : Store) (f : Function) : Value × Store :=
  (.function st.functions.size, { st with functions := st.functions.push f })

/-- Stores a new builtin. -/
def newBuiltin (st : Store) (b : Builtin) : Value × Store :=
  (.builtin st.builtins.size, { st with builtins := st.builtins.push b })

/-- Stores a new host object. -/
def newHost (st : Store) (h : HostObject) : Value × Store :=
  (.host st.hosts.size, { st with hosts := st.hosts.push h })

/-- A change of something stored, which all who refer to it see. -/
inductive Write where
  /-- An element of a list. -/
  | element (ref : Ref) (i : Nat) (value : Value)
  /-- An entry of a record. -/
  | entry (ref : Ref) (key : String) (value : Value)
  /-- All that a host object holds. -/
  | fields (ref : Ref) (fields : List (String × Value))
  deriving DecidableEq

/-- Elements after one of them was written. A write beyond the end pads with `null`. -/
def writeElement (items : Array Value) (i : Nat) (value : Value) : Array Value :=
  if i < items.size then items.setIfInBounds i value
  else (items ++ Array.replicate (i - items.size) Value.null).push value

/-- Carries out a write. -/
def write (st : Store) : Write → Store
  | .element ref i value =>
    { st with lists := st.lists.modify ref fun items => writeElement items i value }
  | .entry ref key value =>
    { st with records := st.records.modify ref fun entries => OrderedMap.put entries key value }
  | .fields ref fields => { st with hosts := st.hosts.modify ref fun h => { h with fields } }

/-- Writes a line to the console. -/
def writeLine (st : Store) (line : String) : Store :=
  { st with console := st.console.push line }

/-- More than the length of any path through lists and records that meets no container twice. -/
def depthBound (st : Store) : Nat := st.lists.size + st.records.size + 1

end Store

end ReactiveScript
