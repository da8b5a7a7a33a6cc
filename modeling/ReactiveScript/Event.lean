import ReactiveScript.Program.Span
import ReactiveScript.Text.Quoted

/-!
# Log events

What an evaluation reports about itself. Events have no influence on results.
-/

namespace ReactiveScript

/-- A log event. -/
inductive Event where
  /-- A program starts. -/
  | execute (statements : Nat)
  /-- A statement is executed. -/
  | statement (kind : String) (span : Span)
  /-- A function is called. -/
  | call (function : String) (depth : Nat)
  /-- A function was declared. -/
  | declared (function : String) (params : Nat)
  /-- A failure was caught. -/
  | caught (error : String)
  /-- A handler was registered. -/
  | observing (targets : List String)
  /-- A module is asked for. -/
  | loading (path : String)
  /-- All waiting tasks have run. -/
  | drained (tasks : Nat)
  /-- A program failed. -/
  | failed (error : String)
  /-- A handler failed. -/
  | observerFailed (error : String)
  /-- A failure of a finalizer was dropped in favour of an earlier one. -/
  | discarded (error : String)
  deriving DecidableEq, Repr

/-- The importance of an event. -/
inductive Level where
  | span | trace | debug | warn
  deriving DecidableEq, Repr

namespace Level

/-- The name of a level. -/
def name : Level → String
  | span => "SPAN"
  | trace => "TRACE"
  | debug => "DEBUG"
  | warn => "WARN"

end Level

namespace Event

/-- The importance of an event. -/
def level : Event → Level
  | execute _ => .span
  | statement .. | call .. => .trace
  | declared .. | caught _ | observing _ | loading _ | drained _ | failed _ => .debug
  | observerFailed _ | discarded _ => .warn

/-- Whether an event is logged only if programs are traced. -/
def ofTrace : Event → Bool
  | statement .. | call .. | declared .. => true
  | _ => false

/-- What an event says. -/
def message : Event → String
  | execute _ => "execute"
  | statement .. => "exec"
  | call .. => "call"
  | declared .. => "declared function"
  | caught _ => "caught"
  | observing _ => "observer registered"
  | loading _ => "loading module"
  | drained _ => "drained scheduler"
  | failed _ => "program failed"
  | observerFailed _ => "observer failed"
  | discarded _ => "error raised in finally was discarded"

/-- The details of an event. -/
def fields : Event → List (String × String)
  | execute statements => [("statements", statements.repr)]
  | statement kind span =>
    [("kind", kind), ("line", span.line.repr), ("column", span.column.repr)]
  | call function depth => [("function", function), ("depth", depth.repr)]
  | declared function params => [("function", function), ("params", params.repr)]
  | observing targets => [("targets", Text.quotedList targets)]
  | loading path => [("path", path)]
  | drained tasks => [("tasks", tasks.repr)]
  | caught error | failed error | observerFailed error | discarded error => [("error", error)]

end Event

end ReactiveScript
