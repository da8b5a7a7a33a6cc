import ReactiveScript.Store

/-!
# JSON trees

The tree form of JSON texts, and the passage between trees and values. Whatever JSON cannot express
(callables, host objects, numbers that are not finite) becomes `null`.
-/

namespace ReactiveScript

/-- A JSON tree. The keys of an object are distinct and in the order of their first occurrence. -/
inductive Json where
  | null
  | bool (b : Bool)
  | number (n : Number)
  | string (s : String)
  | array (items : List Json)
  | object (entries : List (String × Json))
  deriving Inhabited

namespace Json

/-- The tree of a value, following at most `depth` references. -/
def ofValueWithin (st : Store) : (depth : Nat) → Value → Json
  | _, .null => .null
  | _, .bool b => .bool b
  | _, .number n => if n.isFinite then .number n else .null
  | _, .string s => .string s
  | depth + 1, .list ref => .array ((st.list ref).toList.map (ofValueWithin st depth))
  | depth + 1, .record ref =>
    .object ((st.record ref).map (fun entry => (entry.1, ofValueWithin st depth entry.2)))
  | _, _ => .null

/-- The tree of a value without cycles. -/
def ofValue (st : Store) (v : Value) : Json := ofValueWithin st st.depthBound v

mutual

/-- A value for a tree, with new lists and records for its arrays and objects. -/
def toValue : Json → Store → Value × Store
  | .null, st => (.null, st)
  | .bool b, st => (.bool b, st)
  | .number n, st => (.number n, st)
  | .string s, st => (.string s, st)
  | .array items, st =>
    let (values, st) := toValues items #[] st
    st.newList values
  | .object entries, st =>
    let (values, st) := toEntries entries [] st
    st.newRecord values

/-- Values for trees from left to right, after those already made. -/
def toValues : List Json → Array Value → Store → Array Value × Store
  | [], made, st => (made, st)
  | j :: rest, made, st =>
    let (v, st) := j.toValue st
    toValues rest (made.push v) st

/-- Values for entries from left to right, added to those already made. -/
def toEntries : List (String × Json) → OrderedMap Value → Store → OrderedMap Value × Store
  | [], made, st => (made, st)
  | (k, j) :: rest, made, st =>
    let (v, st) := j.toValue st
    toEntries rest (OrderedMap.put made k v) st

end

end Json

end ReactiveScript
