import ReactiveScript.Environment.Error
import ReactiveScript.Program.Span
import ReactiveScript.Value.Basic

/-!
# Failures

An evaluation fails with a cause, or because it was interrupted. A cause can be caught by a `try`
statement and carries a position as soon as one is known; an interruption can neither be caught nor
located.
-/

namespace ReactiveScript

/-- Why an evaluation failed. -/
inductive Cause where
  /-- An operation on a binding was refused. -/
  | binding (error : BindingError)
  /-- A name that is neither bound nor a global of the host. -/
  | unknownIdentifier (name : String)
  /-- A property of `null`. -/
  | nullProperty (property : String)
  /-- A `for`-`of` loop over a value that cannot be iterated. -/
  | notIterable (typeName : String)
  /-- A call of a value that cannot be called. -/
  | notCallable (callee : String)
  /-- An operator that does not take its operands. -/
  | unsupportedOperator (op operands : String)
  /-- An operand of a wrong type. -/
  | typeMismatch (message : String)
  /-- A builtin called with a wrong number of arguments. -/
  | arityMismatch (name : String) (expected got : Nat)
  /-- A value thrown by the program, with its string form. -/
  | thrown (value : Value) (message : String)
  /-- A failed handler. -/
  | observerFailed (name message : String)
  /-- A module that could not be loaded. -/
  | moduleLoad (path message : String)
  /-- An error reported by host code. -/
  | host (name message : String)
  /-- A `break` that left its function or program. -/
  | strayBreak
  /-- A `continue` that left its function or program. -/
  | strayContinue
  /-- A `return` outside of a function. -/
  | strayReturn
  deriving DecidableEq

/-- The wording of a cause. -/
def Cause.message : Cause → String
  | binding error => error.message
  | unknownIdentifier name => "`" ++ name ++ "` is not defined"
  | nullProperty property => "cannot access property `" ++ property ++ "` of null"
  | notIterable typeName => typeName ++ " is not iterable"
  | notCallable callee => "`" ++ callee ++ "` is not a function"
  | unsupportedOperator op operands => "operator `" ++ op ++ "` is not supported for " ++ operands
  | typeMismatch message => "type mismatch: " ++ message
  | arityMismatch name expected got =>
    "`" ++ name ++ "` expects " ++ expected.repr ++ " argument(s), got " ++ got.repr
  | thrown _ message => "uncaught " ++ message
  | observerFailed name message => "observer of `" ++ name ++ "` failed: " ++ message
  | moduleLoad path message => "cannot load module `" ++ path ++ "`: " ++ message
  | host name message => name ++ ": " ++ message
  | strayBreak => "`break` outside of a loop or switch"
  | strayContinue => "`continue` outside of a loop"
  | strayReturn => "`return` outside of a function"

/-- A failed evaluation. -/
inductive Failure where
  /-- A cause and its position, once it has one. -/
  | raised (cause : Cause) (span : Option Span)
  /-- The host asked to stop. -/
  | interrupted
  deriving DecidableEq

namespace Failure

/-- A cause without a position. -/
def of (cause : Cause) : Failure := raised cause none

/-- The wording of a failure. -/
def message : Failure → String
  | raised cause _ => cause.message
  | interrupted => "evaluation interrupted"

/-- The position of a failure. -/
def span? : Failure → Option Span
  | raised _ span => span
  | interrupted => none

/-- Gives a position to a failure that has none. -/
def withSpan (span : Span) : Failure → Failure
  | raised cause none => raised cause (some span)
  | failure => failure

/-- Gives a position to a failure that has none, if that position is known. -/
def locate (span : Span) (failure : Failure) : Failure :=
  if span.isKnown then failure.withSpan span else failure

/-- Whether a `try` statement can catch a failure. -/
def isCatchable : Failure → Bool
  | raised .. => true
  | interrupted => false

/-- The value that a handler gets: the thrown value, or the wording of any other failure. -/
def thrownValue : Failure → Value
  | raised (.thrown value _) _ => value
  | failure => .string failure.message

/-- A failure as it is reported at the end of a program. -/
def diagnostic (failure : Failure) : String :=
  match failure.span? with
  | some span =>
    if span.isKnown then "error at " ++ span.render ++ ": " ++ failure.message
    else "error: " ++ failure.message
  | none => "error: " ++ failure.message

end Failure

end ReactiveScript
