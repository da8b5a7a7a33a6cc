import ReactiveScript.Number.Format
import ReactiveScript.Store
import ReactiveScript.Text.Quoted

/-!
# The text of values

`Value.display` is the string form that scripts see: in concatenation, as property keys and in
thrown errors. `Value.inspect` is the form that the console writes: it shows the structure of lists
and records, down to a fixed depth.
-/

namespace ReactiveScript

namespace Value

/-- The string form, following at most `depth` references to lists. Lists are joined by commas, and
`null` is empty inside of them. -/
def displayWithin (st : Store) : (depth : Nat) → Value → String
  | _, .null => "null"
  | _, .bool b => if b then "true" else "false"
  | _, .number n => n.format
  | _, .string s => s
  | depth + 1, .list ref =>
    ",".intercalate ((st.list ref).toList.map fun item =>
      if item = .null then "" else displayWithin st depth item)
  | 0, .list _ => ""
  | _, .record _ => "[object Object]"
  | _, .function ref => "[function " ++ (st.function ref).displayName ++ "]"
  | _, .builtin ref => "[function " ++ (st.builtin ref).name ++ "]"
  | _, .method receiver name =>
    "[function " ++ (st.host receiver).typeName ++ "." ++ name ++ "]"
  | _, .host ref => "[object " ++ (st.host ref).typeName ++ "]"

/-- The string form of a value without cycles. -/
def display (st : Store) (v : Value) : String := displayWithin st st.depthBound v

/-- How many nested containers an inspection shows. -/
def inspectDepth : Nat := 9

/-- The inspected form with a number of levels left to show. -/
def inspectWithin (st : Store) : (levels : Nat) → Value → String
  | 0, _ => "[...]"
  | _ + 1, .string s => "\"" ++ s ++ "\""
  | levels + 1, .list ref =>
    "[" ++ ", ".intercalate ((st.list ref).toList.map (inspectWithin st levels)) ++ "]"
  | levels + 1, .record ref =>
    match st.record ref with
    | [] => "\x7b\x7d"
    | entries =>
      "\x7b " ++ ", ".intercalate (entries.map fun entry =>
        entry.1 ++ ": " ++ inspectWithin st levels entry.2) ++ " \x7d"
  | _ + 1, v => v.display st

/-- The inspected form of any value; a cycle is cut off where the depth ends. -/
def inspect (st : Store) (v : Value) : String := inspectWithin st inspectDepth v

/-- A line of the console: values separated by blanks, strings as they are and others inspected. -/
def consoleLine (st : Store) (values : List Value) : String :=
  " ".intercalate (values.map fun v =>
    match v with
    | .string s => s
    | v => v.inspect st)

/-- The form of a value for developers: the inspected form, with more detail on callables. -/
def debug (st : Store) : Value → String
  | .function ref =>
    let f := st.function ref
    let name :=
      match f.name with
      | some name => "Some(" ++ Text.quoted name ++ ")"
      | none => "None"
    "FunctionValue \x7b name: " ++ name ++ ", params: " ++ Text.quotedList f.params ++
      ", captured: " ++ f.closure.length.repr ++ " \x7d"
  | .builtin ref => "BuiltinFn(" ++ (st.builtin ref).name ++ ")"
  | .method receiver name => "BoundMethod(" ++ (st.host receiver).typeName ++ "." ++ name ++ ")"
  | v => v.inspect st

end Value

end ReactiveScript
