/-!
# Operators
-/

namespace ReactiveScript

/-- Operators with two operands that are both evaluated. -/
inductive BinaryOp where
  | add | sub | mul | div | rem | pow
  | eq | notEq | strictEq | strictNotEq
  | lt | le | gt | ge
  | bitAnd | bitOr | bitXor | shl | shr | ushr
  deriving DecidableEq, Repr

/-- How a binary operator is written. -/
def BinaryOp.symbol : BinaryOp → String
  | add => "+"
  | sub => "-"
  | mul => "*"
  | div => "/"
  | rem => "%"
  | pow => "**"
  | eq => "=="
  | notEq => "!="
  | strictEq => "==="
  | strictNotEq => "!=="
  | lt => "<"
  | le => "<="
  | gt => ">"
  | ge => ">="
  | bitAnd => "&"
  | bitOr => "|"
  | bitXor => "^"
  | shl => "<<"
  | shr => ">>"
  | ushr => ">>>"

/-- Operators whose right operand is evaluated only if the left one does not decide. -/
inductive LogicalOp where
  | and | or | nullish
  deriving DecidableEq, Repr

/-- Operators with one operand. -/
inductive UnaryOp where
  | neg | plus | not | bitNot | typeOf | void
  deriving DecidableEq, Repr

/-- How a unary operator is written. -/
def UnaryOp.symbol : UnaryOp → String
  | neg => "-"
  | plus => "+"
  | not => "!"
  | bitNot => "~"
  | typeOf => "typeof"
  | void => "void"

/-- Counting a variable up or down. -/
inductive UpdateOp where
  | increment | decrement
  deriving DecidableEq, Repr

/-- How an update operator is written. -/
def UpdateOp.symbol : UpdateOp → String
  | increment => "++"
  | decrement => "--"

end ReactiveScript
