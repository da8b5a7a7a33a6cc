import ReactiveScript.Failure
import ReactiveScript.Host.Basic

/-!
# Properties

Reading and writing members of values. Lists and strings have a `length` and elements; records have
their keys; host objects have what their type provides. A key in brackets is a position if it is a
number and the object has positions, and otherwise the property named by its string form. A write
that is possible is answered by a plan, so that a refused one has touched nothing.
-/

namespace ReactiveScript

namespace Value

/-- The greatest length that a write can give to a list. -/
def maxListLength : Nat := 16777216

/-- The position that a number denotes: a natural below `2 ^ 32 - 1`. -/
def numberIndex? (n : Number) : Option Nat :=
  match n.toInt? with
  | some i => if 0 ≤ i ∧ i < 4294967295 then some i.toNat else none
  | none => none

/-- The position that a property name denotes: decimal digits with a value below `2 ^ 64`. -/
def arrayIndex? (property : String) : Option Nat :=
  let digits := property.toList
  if digits.isEmpty || !digits.all Number.isDigit then none
  else
    let i := Number.digitsValue digits
    if i < 18446744073709551616 then some i else none

/-- A character of a string. The string is walked up to it and no further. -/
def characterAt? (s : String) (i : Nat) : Option Value :=
  (s.chars.atIdxSlow? i).map fun c => string (String.singleton c)

theorem characterAt?_eq (s : String) (i : Nat) :
    characterAt? s i = s.toList[i]?.map fun c => string (String.singleton c) := by
  rw [characterAt?, ← Std.Iter.getElem?_toList_eq_atIdxSlow?, String.toList_chars]

/-- Reads a property by name. What is missing reads as `null`. -/
def getMember (lib : HostLibrary) (st : Store) (object : Value) (property : String) :
    Except Cause Value :=
  match object with
  | .null => .error (.nullProperty property)
  | .record ref => .ok ((OrderedMap.find? (st.record ref) property).getD .null)
  | .list ref =>
    if property = "length" then .ok (ofNat (st.list ref).size)
    else .ok (((arrayIndex? property).bind fun i => (st.list ref)[i]?).getD .null)
  | .string s =>
    if property = "length" then .ok (ofNat s.length)
    else .ok (((arrayIndex? property).bind (characterAt? s)).getD .null)
  | .host ref =>
    match lib.property? st ref property with
    | some v => .ok v
    | none => if lib.hasMethod st ref property then .ok (.method ref property) else .ok .null
  | _ => .ok .null

/-- Reads the property that a key denotes. -/
def getIndex (lib : HostLibrary) (st : Store) (object key : Value) : Except Cause Value :=
  match object, key with
  | .list ref, .number n => .ok (((numberIndex? n).bind fun i => (st.list ref)[i]?).getD .null)
  | .string s, .number n => .ok (((numberIndex? n).bind (characterAt? s)).getD .null)
  | object, key => getMember lib st object (key.display st)

/-- Plans to write an element of a list. Positions beyond the end must stay below the greatest
length. -/
def setElement (st : Store) (ref : Ref) (i : Nat) (value : Value) : Except Cause Store.Write :=
  if i < (st.list ref).size ∨ i < maxListLength then .ok (.element ref i value)
  else
    .error (.typeMismatch ("list index " ++ i.repr ++ " exceeds limit " ++ (maxListLength - 1).repr))

/-- A property that cannot be written. -/
def cannotSet (object : Value) (property : String) : Cause :=
  .typeMismatch ("cannot set property `" ++ property ++ "` on " ++ object.typeName)

/-- Plans to write a property by name. -/
def setMember (lib : HostLibrary) (st : Store) (object : Value) (property : String)
    (value : Value) : Except Cause Store.Write :=
  match object with
  | .null => .error (.nullProperty property)
  | .record ref => .ok (.entry ref property value)
  | .list ref =>
    match arrayIndex? property with
    | some i => setElement st ref i value
    | none => .error (cannotSet object property)
  | .host ref =>
    match lib.setProperty st ref property value with
    | .ok write => .ok write
    | .error message => .error (.host (st.host ref).typeName message)
  | _ => .error (cannotSet object property)

/-- Plans to write the property that a key denotes. -/
def setIndex (lib : HostLibrary) (st : Store) (object key value : Value) :
    Except Cause Store.Write :=
  match object, key with
  | .list ref, .number n =>
    match numberIndex? n with
    | some i => setElement st ref i value
    | none => .error (.typeMismatch ("invalid list index " ++ n.format))
  | object, key => setMember lib st object (key.display st) value

end Value

end ReactiveScript
