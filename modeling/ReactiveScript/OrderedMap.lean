/-!
# Maps that remember insertion order

Records, scopes, closures, exports and module tables are all listed in the order in which their
keys were first inserted. An `OrderedMap` is the list of its entries; `put` replaces the value of a
key where it stands and appends a new key at the end.
-/

namespace ReactiveScript

/-- String-keyed entries in insertion order. -/
abbrev OrderedMap (α : Type) := List (String × α)

namespace OrderedMap

variable {α : Type}

/-- The value of a key. -/
def find? : OrderedMap α → String → Option α
  | [], _ => none
  | (k, v) :: rest, key => if k = key then some v else find? rest key

/-- Whether a key has a value. -/
def has (m : OrderedMap α) (key : String) : Bool := (find? m key).isSome

/-- Sets the value of a key, which keeps its position; a new key comes last. -/
def put : OrderedMap α → String → α → OrderedMap α
  | [], key, value => [(key, value)]
  | (k, v) :: rest, key, value =>
    if k = key then (k, value) :: rest else (k, v) :: put rest key value

/-- Changes the value of a key that is present. -/
def adjust : OrderedMap α → String → (α → α) → OrderedMap α
  | [], _, _ => []
  | (k, v) :: rest, key, f =>
    if k = key then (k, f v) :: rest else (k, v) :: adjust rest key f

/-- The keys in insertion order. -/
def keys (m : OrderedMap α) : List String := m.map Prod.fst

/-- The map that results from inserting entries one after the other: a repeated key keeps its first
position and takes its last value. -/
def ofEntries (entries : List (String × α)) : OrderedMap α :=
  entries.foldl (fun m entry => put m entry.1 entry.2) []

end OrderedMap

end ReactiveScript
