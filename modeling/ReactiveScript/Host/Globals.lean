import ReactiveScript.Host.Console
import ReactiveScript.Host.Json

/-!
# Standard globals
-/

namespace ReactiveScript

namespace HostClass

/-- A type without properties and methods. -/
def inert : HostClass where
  hasMethod := fun _ => false
  invoke := fun _ method _ st =>
    { result := .error ("unknown method " ++ method), store := st }

end HostClass

namespace Host

/-- The names that programs can rely on: the console, JSON, and three constants. -/
def standardGlobals (st : Store) : OrderedMap Value × Store :=
  let (console, st) := st.newHost { typeName := "console", fields := [] }
  let (json, st) := st.newHost { typeName := "JSON", fields := [] }
  ([("console", console), ("JSON", json), ("undefined", .null), ("NaN", .number Number.nan),
    ("Infinity", .number (Number.infinity false))], st)

/-- A host that provides the standard globals and nothing else. -/
def standardLibrary : HostLibrary where
  classOf := fun typeName =>
    if typeName = "console" then .console
    else if typeName = "JSON" then .json
    else .inert
  builtin := fun name _ st => { result := .error ("unknown builtin " ++ name), store := st }

end Host

end ReactiveScript
