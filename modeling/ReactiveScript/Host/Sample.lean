import ReactiveScript.Host.Globals

/-!
# A sample host

Two types of host objects and a few builtins, as an embedding application might provide them: a
range of numbers that can be iterated, a cell with properties that can be written, and builtins that
compute, fail, and ask the evaluation to stop.
-/

namespace ReactiveScript

namespace HostClass

/-- The end of a range. -/
def rangeEnd (fields : List (String × Value)) : Number :=
  match OrderedMap.find? fields "end" with
  | some (.number n) => n
  | _ => Number.zero false

/-- The numbers from zero to below the property `end`. -/
def range : HostClass where
  property? := fun fields name =>
    if name = "end" then some (.number (rangeEnd fields)) else none
  hasMethod := fun name => name == "contains"
  invoke := fun ref method args st =>
    if method = "contains" then
      match args with
      | .number n :: _ =>
        let inside := decide ((0 : Number) ≤ n) && decide (n < rangeEnd (st.host ref).fields)
        { result := .ok (.bool inside), store := st }
      | _ => { result := .error "contains expects a number", store := st }
    else { result := .error ("unknown method " ++ method), store := st }
  enumerate? := fun fields =>
    some ((List.range ((rangeEnd fields).toInt?.getD 0).toNat).map Value.ofNat)

/-- Properties that can be written, all but `locked`. -/
def cell : HostClass where
  property? := fun fields name => OrderedMap.find? fields name
  setProperty? := some fun fields name value =>
    if name = "locked" then .error "property is locked" else .ok (OrderedMap.put fields name value)
  hasMethod := fun name => name == "size"
  invoke := fun ref _ _ st =>
    { result := .ok (Value.ofNat (st.host ref).fields.length), store := st }

end HostClass

namespace Host

/-- The builtins of the sample host. -/
def sampleBuiltins : List Builtin :=
  [⟨"double", some 1⟩, ⟨"fails", none⟩, ⟨"args", none⟩, ⟨"pick", some 2⟩, ⟨"halt", some 0⟩]

/-- What the builtins of the sample host do. -/
def sampleBuiltin (name : String) (args : List Value) (st : Store) : Reply :=
  if name = "double" then
    let n := (args.head?.bind Value.toNumber?).getD Number.nan
    { result := .ok (.number (n * 2)), store := st }
  else if name = "args" then
    let (v, st) := st.newList args.toArray
    { result := .ok v, store := st }
  else if name = "pick" then { result := .ok ((args.drop 1).head?.getD .null), store := st }
  else if name = "halt" then { result := .ok .null, store := st, interrupts := true }
  else { result := .error "nope", store := st }

/-- The sample host. -/
def sampleLibrary : HostLibrary where
  classOf := fun typeName =>
    if typeName = "Range" then .range
    else if typeName = "Cell" then .cell
    else standardLibrary.classOf typeName
  builtin := sampleBuiltin

end Host

end ReactiveScript
