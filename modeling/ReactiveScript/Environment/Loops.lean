import ReactiveScript.Environment.Basic

/-!
# Lookups as loops

The lookups as loops along the parents, each of which looks at one scope after the other and keeps
its own account of what it has met: one stops at the first scope that binds a name, one inserts into
a snapshot what the snapshot does not hold yet, and one collects a list of names without repetition.
A loop visits at most `count` scopes.
-/

namespace ReactiveScript

namespace Environment

namespace Loop

/-- The first scope that binds a name. -/
def position (env : Environment) (name : String) : (count : Nat) → Option Nat → Option Nat
  | 0, _ => none
  | _ + 1, none => none
  | count + 1, some i =>
    if OrderedMap.has (env.scope i).bindings name then some i
    else position env name count (env.scope i).parent

/-- Goes through the scopes and adds the variables of each to what has been collected. -/
def collect {σ : Type} (env : Environment) (add : σ → OrderedMap Binding → σ) :
    (count : Nat) → Option Nat → σ → σ
  | 0, _, collected => collected
  | _ + 1, none, collected => collected
  | count + 1, some i, collected =>
    collect env add count (env.scope i).parent (add collected (env.scope i).bindings)

/-- Inserts those bindings of a scope into a snapshot whose names it does not hold. -/
def insertCaptured (closure : Closure) : OrderedMap Binding → Closure
  | [] => closure
  | (name, b) :: rest =>
    insertCaptured (if OrderedMap.has closure name then closure
      else OrderedMap.put closure name { value := b.value, mode := b.mode }) rest

/-- Appends those names of a scope to a list that are not in it. -/
def appendNames (names : List String) : OrderedMap Binding → List String
  | [] => names
  | (name, _) :: rest => appendNames (if name ∈ names then names else names ++ [name]) rest

end Loop

/-- The first scope that binds a name, by a loop from the innermost scope. -/
def positionByLoop (env : Environment) (name : String) : Option Nat :=
  Loop.position env name env.depth (some env.current)

/-- The binding that a name refers to, by a loop for its scope. -/
def resolveByLoop (env : Environment) (name : String) : Option Binding :=
  (env.positionByLoop name).bind fun i => OrderedMap.find? (env.scope i).bindings name

/-- A snapshot of all visible bindings, by a loop of its own. -/
def captureByLoop (env : Environment) : Closure :=
  Loop.collect env Loop.insertCaptured env.depth (some env.current) []

/-- All visible names, by a loop of its own. -/
def allNamesByLoop (env : Environment) : List String :=
  Loop.collect env Loop.appendNames env.depth (some env.current) []

end Environment

end ReactiveScript
