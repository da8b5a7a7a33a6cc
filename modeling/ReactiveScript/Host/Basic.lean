import ReactiveScript.Value.Text

/-!
# Host code

A host extends scripts with builtins and with objects of its own types. Host code gets its
arguments and the store, and answers with a value or an error text, the store it leaves behind, and
whether it asks for the evaluation to stop. It can neither reach variables nor withdraw such a
request.
-/

namespace ReactiveScript

/-- The answer of host code. -/
structure Reply where
  /-- The value, or an error text. -/
  result : Except String Value
  /-- The store afterwards. -/
  store : Store
  /-- Whether the evaluation shall be interrupted. -/
  interrupts : Bool := false

/-- The behaviour of a type of host objects. What an object holds is passed along. -/
structure HostClass where
  /-- A readable property; a name without one may still be a method. -/
  property? : List (String × Value) → String → Option Value := fun _ _ => none
  /-- Writes a property, or says why it cannot be written. -/
  setProperty? : Option (List (String × Value) → String → Value →
    Except String (List (String × Value))) := none
  /-- Whether a name is a method. -/
  hasMethod : String → Bool
  /-- Calls a method. -/
  invoke : Ref → String → List Value → Store → Reply
  /-- The values that a `for`-`of` loop visits, if the object can be iterated. -/
  enumerate? : List (String × Value) → Option (List Value) := fun _ => none

/-- All host code that a program can reach. -/
structure HostLibrary where
  /-- The behaviour of the objects of a type. -/
  classOf : String → HostClass
  /-- The behaviour of a builtin. -/
  builtin : String → List Value → Store → Reply

namespace HostLibrary

variable (lib : HostLibrary)

/-- The behaviour of a host object. -/
def classAt (st : Store) (ref : Ref) : HostClass := lib.classOf (st.host ref).typeName

/-- A readable property of a host object. -/
def property? (st : Store) (ref : Ref) (name : String) : Option Value :=
  (lib.classAt st ref).property? (st.host ref).fields name

/-- Whether a name is a method of a host object. -/
def hasMethod (st : Store) (ref : Ref) (name : String) : Bool :=
  (lib.classAt st ref).hasMethod name

/-- Plans to write a property of a host object. -/
def setProperty (st : Store) (ref : Ref) (name : String) (value : Value) :
    Except String Store.Write :=
  match (lib.classAt st ref).setProperty? with
  | some set =>
    match set (st.host ref).fields name value with
    | .ok fields => .ok (.fields ref fields)
    | .error message => .error message
  | none => .error ("cannot set property `" ++ name ++ "` on " ++ (st.host ref).typeName)

/-- The values that a `for`-`of` loop over a host object visits. -/
def enumerate? (st : Store) (ref : Ref) : Option (List Value) :=
  (lib.classAt st ref).enumerate? (st.host ref).fields

/-- Calls a method of a host object. -/
def invoke (st : Store) (ref : Ref) (method : String) (args : List Value) : Reply :=
  (lib.classAt st ref).invoke ref method args st

end HostLibrary

end ReactiveScript
