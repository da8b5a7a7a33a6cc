import ReactiveScript.Failure
import ReactiveScript.Number.Word
import ReactiveScript.Program.Operator
import ReactiveScript.Text.Bytes
import ReactiveScript.Value.Equality

/-!
# Operators on values

The results of unary and binary operators on values. Arithmetic takes primitives only and complains
about one operand at a time; comparisons and bitwise operators complain about the pair. Bitwise
operators work on 32-bit words.
-/

namespace ReactiveScript

namespace Value

/-- An operand of an arithmetic operator as a number. -/
def numericOperand (op : String) (v : Value) : Except Cause Number :=
  match v.toNumber? with
  | some n => .ok n
  | none => .error (.typeMismatch ("cannot use " ++ v.typeName ++ " as a number in `" ++ op ++ "`"))

/-- An operand of a comparison or a bitwise operator as a number, given the other operand. -/
def pairedOperand (op : BinaryOp) (v other : Value) : Except Cause Number :=
  match v.toNumber? with
  | some n => .ok n
  | none => .error (.unsupportedOperator op.symbol (v.typeName ++ " and " ++ other.typeName))

/-- The number of a signed word. -/
def ofSignedWord (w : BitVec 32) : Value := number (Number.ofInt w.toInt)

/-- The number of an unsigned word. -/
def ofUnsignedWord (w : BitVec 32) : Value := number (Number.ofNat w.toNat)

/-- The shift distance that a word asks for: its last five bits. -/
def shiftOf (w : BitVec 32) : Nat := (w &&& 31).toNat

/-- Arithmetic on numbers; operators that are not arithmetic have no result. -/
def arithmetic? (op : BinaryOp) (l r : Number) : Option Number :=
  match op with
  | .add => some (l + r)
  | .sub => some (l - r)
  | .mul => some (l * r)
  | .div => some (l / r)
  | .rem => some (l.remainder r)
  | .pow => some (l.power r)
  | _ => none

/-- Comparison of numbers, which is false if one of them is NaN. -/
def compareNumbers (op : BinaryOp) (l r : Number) : Bool :=
  match op with
  | .lt => decide (l < r)
  | .le => decide (l < r) || l.equals r
  | .gt => decide (r < l)
  | .ge => decide (r < l) || l.equals r
  | _ => false

/-- Comparison of strings by their bytes. -/
def compareStrings (op : BinaryOp) (l r : String) : Bool :=
  match op with
  | .lt => (Text.compareBytes l r).isLT
  | .le => (Text.compareBytes l r).isLE
  | .gt => (Text.compareBytes l r).isGT
  | .ge => (Text.compareBytes l r).isGE
  | _ => false

/-- Bitwise operators on words. -/
def bitwise (op : BinaryOp) (l r : BitVec 32) : Value :=
  match op with
  | .bitAnd => ofSignedWord (l &&& r)
  | .bitOr => ofSignedWord (l ||| r)
  | .bitXor => ofSignedWord (l ^^^ r)
  | .shl => ofSignedWord (l <<< shiftOf r)
  | .shr => ofSignedWord (l.sshiftRight (shiftOf r))
  | _ => ofUnsignedWord (l >>> shiftOf r)

/-- The result of an arithmetic operator. -/
def applyArithmetic (op : BinaryOp) (l r : Value) : Except Cause Value :=
  match numericOperand op.symbol l with
  | .error e => .error e
  | .ok a =>
    match numericOperand op.symbol r with
    | .error e => .error e
    | .ok b => .ok (number ((arithmetic? op a b).getD Number.nan))

/-- The result of `+`: concatenation if one operand is a string. -/
def applyAdd (st : Store) (l r : Value) : Except Cause Value :=
  if l.isString || r.isString then .ok (string (l.display st ++ r.display st))
  else applyArithmetic .add l r

/-- Both operands of a comparison or a bitwise operator, the left one first. -/
def pairedOperands (op : BinaryOp) (l r : Value) : Except Cause (Number × Number) :=
  match pairedOperand op l r with
  | .error e => .error e
  | .ok a =>
    match pairedOperand op r l with
    | .error e => .error e
    | .ok b => .ok (a, b)

/-- The result of a comparison. -/
def applyComparison (op : BinaryOp) : Value → Value → Except Cause Value
  | .string a, .string b => .ok (bool (compareStrings op a b))
  | l, r =>
    match pairedOperands op l r with
    | .error e => .error e
    | .ok (a, b) => .ok (bool (compareNumbers op a b))

/-- The result of a bitwise operator. -/
def applyBitwise (op : BinaryOp) (l r : Value) : Except Cause Value :=
  match pairedOperands op l r with
  | .error e => .error e
  | .ok (a, b) => .ok (bitwise op a.word b.word)

/-- The result of a binary operator. -/
def applyBinary (st : Store) (op : BinaryOp) (l r : Value) : Except Cause Value :=
  match op with
  | .add => applyAdd st l r
  | .sub | .mul | .div | .rem | .pow => applyArithmetic op l r
  | .eq => .ok (bool (looseEquals st l r))
  | .notEq => .ok (bool (!looseEquals st l r))
  | .strictEq => .ok (bool (strictEquals l r))
  | .strictNotEq => .ok (bool (!strictEquals l r))
  | .lt | .le | .gt | .ge => applyComparison op l r
  | .bitAnd | .bitOr | .bitXor | .shl | .shr | .ushr => applyBitwise op l r

/-- The result of a unary operator. -/
def applyUnary (op : UnaryOp) (v : Value) : Except Cause Value :=
  match op with
  | .neg =>
    match numericOperand op.symbol v with
    | .ok n => .ok (number (-n))
    | .error e => .error e
  | .plus =>
    match numericOperand op.symbol v with
    | .ok n => .ok (number n)
    | .error e => .error e
  | .not => .ok (bool (!v.isTruthy))
  | .bitNot =>
    match v.toNumber? with
    | some n => .ok (ofSignedWord (~~~n.word))
    | none => .error (.unsupportedOperator op.symbol v.typeName)
  | .typeOf => .ok (string v.typeOf)
  | .void => .ok null

end Value

end ReactiveScript
