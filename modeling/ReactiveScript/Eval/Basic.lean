import ReactiveScript.Environment.Basic
import ReactiveScript.Eval.Outcome
import ReactiveScript.Event
import ReactiveScript.Failure
import ReactiveScript.Host.Basic
import ReactiveScript.Schedule.Queue

/-!
# Evaluation

Evaluations are computations on a `State` that may fail. Nothing but the state changes: the
`Context` of host services is fixed while a program runs.
-/

namespace ReactiveScript

/-- A notification that waits for its turn. -/
structure Notification where
  /-- The variable that changed. -/
  name : String
  /-- The handler to call. -/
  handler : Value
  /-- Its arguments. -/
  args : List Value
  deriving DecidableEq

/-- Everything that an evaluation can change. -/
structure State where
  /-- The variables. -/
  env : Environment := {}
  /-- What values refer to, and the console. -/
  store : Store := {}
  /-- Waiting notifications. -/
  queue : TaskQueue Notification := {}
  /-- Log events, oldest first. -/
  events : Array Event := #[]
  /-- The names exported so far. -/
  exports : List String := []
  /-- Whether the host asked to stop. -/
  interrupted : Bool := false

/-- The exported values of a module. -/
abbrev Exports := OrderedMap Value

/-- What the host provides to programs. -/
structure Context where
  /-- Host code. -/
  library : HostLibrary
  /-- Values that names without a binding refer to. -/
  globals : OrderedMap Value := []
  /-- The modules that can be imported, if there is a loader. -/
  modules : Option (OrderedMap Exports) := none
  /-- Whether statements and calls are logged. -/
  trace : Bool := false

/-- How a statement completed. -/
inductive Completion where
  /-- It ran to its end. -/
  | normal (value : Value)
  /-- A `break` is on its way to a loop or a switch. -/
  | broke
  /-- A `continue` is on its way to a loop. -/
  | continued
  /-- A `return` is on its way to a call. -/
  | returned (value : Value)
  deriving DecidableEq

namespace Completion

/-- Completion without a value. -/
def done : Completion := .normal .null

/-- Whether control leaves the enclosing statements. -/
def isAbrupt : Completion → Bool
  | .normal _ => false
  | _ => true

/-- The value carried along. -/
def value : Completion → Value
  | .normal v | .returned v => v
  | .broke | .continued => .null

/-- The cause of a completion that leaves a program, or a function, in a way that it must not. -/
def strayCause? (inFunction : Bool) : Completion → Option Cause
  | .normal _ => none
  | .broke => some .strayBreak
  | .continued => some .strayContinue
  | .returned _ => if inFunction then none else some .strayReturn

end Completion

/-- An evaluation. -/
def Eval (α : Type) := State → Outcome State Failure α

namespace Eval

variable {α β : Type}

/-- The evaluation that has a value already. -/
@[always_inline, inline]
protected def pure (a : α) : Eval α := fun s => .ok a s

/-- One evaluation after the other. A failure of the first ends both. -/
@[always_inline, inline]
protected def bind (m : Eval α) (f : α → Eval β) : Eval β := fun s =>
  match m s with
  | .ok a s => f a s
  | .error e s => .error e s
  | .exhausted => .exhausted

instance : Monad Eval where
  pure := Eval.pure
  bind := Eval.bind

/-- Ends with a failure. -/
@[inline]
def fail (failure : Failure) : Eval α := fun s => .error failure s

/-- Ends with a cause that has no position yet. -/
@[inline]
def raise (cause : Cause) : Eval α := fail (.of cause)

/-- Ends for want of steps. -/
def stop : Eval α := fun _ => .exhausted

/-- A result that was computed without the state. -/
@[inline]
def ofExcept : Except Cause α → Eval α
  | .ok a => fun s => .ok a s
  | .error cause => raise cause

/-- A result that was kept for later. -/
@[inline]
def ofResult : Except Failure α → Eval α
  | .ok a => fun s => .ok a s
  | .error failure => fail failure

/-- The current environment. -/
@[inline]
def environment : Eval Environment := fun s => .ok s.env s

/-- The current store. -/
@[inline]
def store : Eval Store := fun s => .ok s.store s

/-- Changes the environment. -/
@[inline]
def modifyEnv (f : Environment → Environment) : Eval Unit := fun s =>
  .ok () { s with env := f s.env }

/-- Changes the environment, unless that is refused. -/
@[inline]
def tryEnv (f : Environment → Except BindingError Environment) : Eval Unit := fun s =>
  match f s.env with
  | .ok env => .ok () { s with env }
  | .error e => .error (.of (.binding e)) s

/-- Carries out a planned write, if there is one. -/
@[inline]
def tryWrite (plan : Store → Except Cause Store.Write) : Eval Unit := fun s =>
  match plan s.store with
  | .ok write => .ok () { s with store := s.store.write write }
  | .error cause => .error (.of cause) s

/-- Stores something new. -/
@[inline]
def allocate (f : Store → Value × Store) : Eval Value := fun s =>
  let (v, store) := f s.store
  .ok v { s with store }

/-- Logs an event. -/
@[inline]
def emit (event : Event) : Eval Unit := fun s =>
  .ok () { s with events := s.events.push event }

/-- Logs an event if programs are traced. -/
@[inline]
def emitIf (trace : Bool) (event : Event) : Eval Unit := if trace then emit event else Eval.pure ()

/-- Ends with an interruption if the host asked to stop. -/
@[inline]
def checkInterrupt : Eval Unit := fun s =>
  if s.interrupted then .error .interrupted s else .ok () s

/-- Gives a position to failures that have none. -/
@[inline]
def locating (span : Span) (m : Eval α) : Eval α := fun s => (m s).mapError (·.locate span)

/-- Keeps a failure as a result. -/
@[inline]
def attempt (m : Eval α) : Eval (Except Failure α) := fun s =>
  match m s with
  | .ok a s => .ok (.ok a) s
  | .error failure s => .ok (.error failure) s
  | .exhausted => .exhausted

/-- Runs inside a block of its own, which is left however the evaluation ends. -/
@[inline]
def inBlock (m : Eval α) : Eval α := fun s =>
  (m { s with env := s.env.pushBlock }).mapState fun s => { s with env := s.env.pop }

/-- Runs inside the scopes of a call, which are left however the evaluation ends. Nothing runs if
the call depth has reached its limit. -/
@[inline]
def inCall (f : Function) (self : Value) (m : Eval α) : Eval α := fun s =>
  match s.env.beginCall f self with
  | .error e => .error (.of (.binding e)) s
  | .ok env => (m { s with env }).mapState fun s => { s with env := s.env.endCall }

/-- Runs host code. An error of it is reported under a name. -/
@[inline]
def hostCall (name : String) (f : Store → Reply) : Eval Value := fun s =>
  let reply := f s.store
  let s := { s with store := reply.store, interrupted := s.interrupted || reply.interrupts }
  match reply.result with
  | .ok v => .ok v s
  | .error message => .error (.of (.host name message)) s

/-! ## Repetition -/

/-- What one round of a loop asks for. -/
inductive Round where
  /-- Another round. -/
  | again
  /-- The end of the loop. -/
  | finish (completion : Completion)

/-- Repeats a round at most `fuel` times, until it ends the loop. -/
@[specialize]
def repeating (round : Eval Round) : (fuel : Nat) → Eval Completion
  | 0 => fun _ => .exhausted
  | fuel + 1 => fun s =>
    match round s with
    | .ok .again s => repeating round fuel s
    | .ok (.finish completion) s => .ok completion s
    | .error e s => .error e s
    | .exhausted => .exhausted

/-- One round for each item, until a round ends the loop. -/
@[specialize]
def forEach (round : Value → Eval Round) : List Value → Eval Completion
  | [] => fun s => .ok .done s
  | item :: rest => fun s =>
    match round item s with
    | .ok .again s => forEach round rest s
    | .ok (.finish completion) s => .ok completion s
    | .error e s => .error e s
    | .exhausted => .exhausted

end Eval

end ReactiveScript
