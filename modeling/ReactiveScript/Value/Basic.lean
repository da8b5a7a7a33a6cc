import ReactiveScript.Number.Parse

/-!
# Values

Primitive values are held directly. Lists, records, functions, builtins and host objects are
references into a store, so that two of them are identical exactly when their references are.
-/

namespace ReactiveScript

/-- A reference into one of the tables of a store. -/
abbrev Ref := Nat

/-- A value of the script language. -/
inductive Value where
  /-- `null`, which also stands for everything that is missing. -/
  | null
  | bool (b : Bool)
  | number (n : Number)
  | string (s : String)
  | list (ref : Ref)
  | record (ref : Ref)
  | function (ref : Ref)
  | builtin (ref : Ref)
  /-- A method of a host object, bound to its receiver. -/
  | method (receiver : Ref) (name : String)
  | host (ref : Ref)
  deriving DecidableEq, Inhabited

namespace Value

/-- The number of a boolean. -/
def numberOfBool (b : Bool) : Number := if b then 1 else 0

/-- Whether a value counts as true in a condition: all but `null`, `false`, the zeros, NaN and the
empty string. -/
def isTruthy : Value → Bool
  | null => false
  | bool b => b
  | number n => !n.isZero && !n.isNaN
  | string s => !s.isEmpty
  | _ => true

/-- The numeric form of a primitive; other values have none. -/
def toNumber? : Value → Option Number
  | null => some (Number.zero false)
  | bool b => some (numberOfBool b)
  | number n => some n
  | string s => some (Number.parse s)
  | _ => none

/-- Whether a value has a numeric form. -/
def isPrimitive : Value → Bool
  | null | bool _ | number _ | string _ => true
  | _ => false

/-- Whether a value can be called. -/
def isCallable : Value → Bool
  | function _ | builtin _ | method .. => true
  | _ => false

/-- Whether a value is a string. -/
def isString : Value → Bool
  | string _ => true
  | _ => false

/-- The result of the `typeof` operator. -/
def typeOf : Value → String
  | null | list _ | record _ | host _ => "object"
  | bool _ => "boolean"
  | number _ => "number"
  | string _ => "string"
  | function _ | builtin _ | method .. => "function"

/-- The name of a value's type in error messages. -/
def typeName : Value → String
  | null => "null"
  | bool _ => "boolean"
  | number _ => "number"
  | string _ => "string"
  | list _ => "list"
  | record _ => "record"
  | function _ | builtin _ | method .. => "function"
  | host _ => "host object"

/-- The value of a literal number of elements, characters and the like. -/
def ofNat (n : Nat) : Value := number (Number.ofNat n)

end Value

end ReactiveScript
