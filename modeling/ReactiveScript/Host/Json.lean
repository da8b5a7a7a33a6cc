import ReactiveScript.Host.Basic
import ReactiveScript.Json.Read
import ReactiveScript.Json.Write

/-!
# The JSON object
-/

namespace ReactiveScript

namespace HostClass

/-- The message for a method that got no argument. -/
def missingArgument (name : String) : String :=
  name ++ " expects at least 1 argument(s), got 0"

/-- The JSON text of a value. A truthy third argument asks for the indented form. -/
def stringify (args : List Value) (st : Store) : Except String Value :=
  match args with
  | [] => .error (missingArgument "JSON.stringify")
  | v :: rest =>
    let spacing : Json.Spacing :=
      if (rest.drop 1).head?.any Value.isTruthy then .indented else .compact
    .ok (.string ((Json.ofValue st v).write spacing))

/-- The value that the string form of an argument denotes as a JSON text. -/
def parseJson (args : List Value) (st : Store) : Reply :=
  match args with
  | [] => { result := .error (missingArgument "JSON.parse"), store := st }
  | v :: _ =>
    match Json.read (v.display st) with
    | .error e => { result := .error ("invalid JSON: " ++ e.message), store := st }
    | .ok j =>
      let (value, st) := j.toValue st
      { result := .ok value, store := st }

/-- The object with the methods `stringify` and `parse`. -/
def json : HostClass where
  hasMethod := fun name => name == "stringify" || name == "parse"
  invoke := fun _ method args st =>
    if method = "stringify" then { result := stringify args st, store := st }
    else if method = "parse" then parseJson args st
    else { result := .error ("JSON." ++ method ++ " is not a function"), store := st }

end HostClass

end ReactiveScript
