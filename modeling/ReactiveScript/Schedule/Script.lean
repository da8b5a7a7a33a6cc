import ReactiveScript.Failure
import ReactiveScript.Schedule.Drain

/-!
# Scripted tasks

Tasks that are given by what they do: leave a record, and then schedule and withdraw other tasks or
ask to stop. They exercise a queue in every way in which tasks can use it while they run.
-/

namespace ReactiveScript

/-- What a scripted task does after it has left its record. -/
inductive Action where
  /-- Schedules a task with a label and actions. -/
  | later (label : String) (actions : List Action)
  /-- Withdraws the task of a handle and records whether it was waiting. -/
  | cancel (handle : Nat)
  /-- Asks to stop. -/
  | interrupt

/-- A task that records its label and then acts. -/
structure ScriptedTask where
  /-- The label. -/
  label : String
  /-- What it does afterwards. -/
  actions : List Action

/-- A queue of scripted tasks in use. -/
structure Agenda where
  /-- The waiting tasks. -/
  queue : TaskQueue ScriptedTask := {}
  /-- All handles given out so far, oldest first. -/
  handles : List Nat := []
  /-- The records left so far, oldest first. -/
  records : List String := []
  /-- Whether a stop was asked for. -/
  interrupted : Bool := false

namespace Agenda

/-- Schedules a task. -/
def later (a : Agenda) (task : ScriptedTask) : Agenda :=
  { a with queue := a.queue.schedule task, handles := a.handles ++ [a.queue.nextHandle] }

/-- Withdraws the task of a handle, and says whether it was waiting. -/
def cancel (a : Agenda) (handle : Nat) : Bool × Agenda :=
  (a.queue.isWaiting handle, { a with queue := a.queue.cancel handle })

/-- Leaves a record. -/
def note (a : Agenda) (text : String) : Agenda := { a with records := a.records ++ [text] }

/-- Carries out one action. -/
def act (a : Agenda) : Action → Agenda
  | .later label actions => a.later ⟨label, actions⟩
  | .cancel handle =>
    let (found, a) := a.cancel handle
    a.note (if found then "cancel:true" else "cancel:false")
  | .interrupt => { a with interrupted := true }

/-- Carries out a task. -/
def run (a : Agenda) (task : ScriptedTask) : Agenda := task.actions.foldl act (a.note task.label)

/-- Takes the next task off the queue. -/
def take? (a : Agenda) : Option (ScriptedTask × Agenda) :=
  match a.queue.next? with
  | none => none
  | some (task, queue) => some (task, { a with queue })

/-- Runs one task, and says whether there was one. -/
def runNext (a : Agenda) : Bool × Agenda :=
  match a.take? with
  | none => (false, a)
  | some (task, a) => (true, a.run task)

/-- Runs tasks until none is waiting or a stop was asked for. -/
def runPending (fuel : Nat) (a : Agenda) : Outcome Agenda Failure Nat :=
  TaskQueue.drain (·.interrupted) .interrupted take? (fun task a => some (a.run task)) fuel 0 a

end Agenda

end ReactiveScript
