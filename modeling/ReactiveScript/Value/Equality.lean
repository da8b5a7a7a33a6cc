import ReactiveScript.Value.Text

/-!
# Equality of values

Scripts have strict equality, by identity for everything that is not primitive, and loose equality,
which converts its operands first. Assignment compares by `sameValue` to detect changes. Structural
equality compares lists and records by their contents; it is for hosts only.
-/

namespace ReactiveScript

namespace Value

/-- Strict equality: numbers as numbers, strings and booleans by content, and everything else by
identity. -/
def strictEquals : Value → Value → Bool
  | .number a, .number b => a.equals b
  | .null, .null => true
  | .bool a, .bool b => a == b
  | .string a, .string b => a == b
  | .list a, .list b => a == b
  | .record a, .record b => a == b
  | .function a, .function b => a == b
  | .builtin a, .builtin b => a == b
  | .method a m, .method b n => a == b && m == n
  | .host a, .host b => a == b
  | _, _ => false

/-- Loose equality of a number with a value that is not `null`. -/
def looseEqualsNumber (st : Store) (n : Number) : Value → Bool
  | .number m => n.equals m
  | .bool b => n.equals (numberOfBool b)
  | .string s => n.equals (Number.parse s)
  | .list ref => n.equals (Number.parse ((Value.list ref).display st))
  | .record ref => n.equals (Number.parse ((Value.record ref).display st))
  | _ => false

/-- Loose equality of a string with a list or a record, or with another string. -/
def looseEqualsString (st : Store) (s : String) : Value → Bool
  | .string t => s == t
  | .list ref => s == (Value.list ref).display st
  | .record ref => s == (Value.record ref).display st
  | _ => false

/-- Loose equality: `null` equals only itself, booleans count as numbers, and a list or a record is
compared with a number or a string by its string form. -/
def looseEquals (st : Store) : Value → Value → Bool
  | .null, .null => true
  | .null, _ => false
  | _, .null => false
  | .bool a, .bool b => a == b
  | .number n, v => looseEqualsNumber st n v
  | v, .number n => looseEqualsNumber st n v
  | .bool b, v => looseEqualsNumber st (numberOfBool b) v
  | v, .bool b => looseEqualsNumber st (numberOfBool b) v
  | .string s, v => looseEqualsString st s v
  | v, .string s => looseEqualsString st s v
  | a, b => strictEquals a b

/-- The comparison by which assignment detects a change: strict equality, except that NaN is the
same as NaN. -/
def sameValue : Value → Value → Bool
  | .number a, .number b => (a.isNaN && b.isNaN) || a.equals b
  | a, b => strictEquals a b

/-- Structural equality, following at most `depth` references. Records are compared without regard
to the order of their keys. -/
def structuralEqualsWithin (st : Store) : (depth : Nat) → Value → Value → Bool
  | depth + 1, .list a, .list b =>
    a == b ||
      ((st.list a).size == (st.list b).size &&
        (List.zip (st.list a).toList (st.list b).toList).all
          (fun pair => structuralEqualsWithin st depth pair.1 pair.2))
  | depth + 1, .record a, .record b =>
    a == b ||
      ((st.record a).length == (st.record b).length &&
        (st.record a).all (fun entry =>
          match OrderedMap.find? (st.record b) entry.1 with
          | some other => structuralEqualsWithin st depth entry.2 other
          | none => false))
  | _, a, b => strictEquals a b

/-- Structural equality of values without cycles. -/
def structuralEquals (st : Store) (a b : Value) : Bool :=
  structuralEqualsWithin st st.depthBound a b

end Value

end ReactiveScript
