import ReactiveScript.Host.Basic

/-!
# The console
-/

namespace ReactiveScript

namespace HostClass

/-- The methods of the console, which all write a line. -/
def consoleMethods : List String := ["log", "info", "debug", "warn", "error"]

/-- The console: each method writes its arguments as one line. -/
def console : HostClass where
  hasMethod := consoleMethods.contains
  invoke := fun _ method args st =>
    if consoleMethods.contains method then
      { result := .ok .null, store := st.writeLine (Value.consoleLine st args) }
    else
      { result := .error ("console." ++ method ++ " is not a function"), store := st }

end HostClass

end ReactiveScript
