/-!
# Task queues

Tasks wait in the order in which they were scheduled. Every task gets a handle of its own, by which
it can be withdrawn until it is taken.

The waiting tasks are kept in two lists, so that both ends are at hand; `entries` joins them, and
every operation is described by what it does to `entries`.
-/

namespace ReactiveScript

/-- Scheduled tasks with their handles. -/
structure TaskQueue (τ : Type) where
  /-- The handle of the next task. -/
  nextHandle : Nat := 0
  /-- The tasks that are taken first, oldest first. -/
  front : List (Nat × τ) := []
  /-- The tasks behind them, newest first. -/
  back : List (Nat × τ) := []

namespace TaskQueue

variable {τ : Type}

/-- The waiting tasks with their handles, oldest first. -/
def entries (q : TaskQueue τ) : List (Nat × τ) := q.front ++ q.back.reverse

/-- Schedules a task behind all others, under the handle `nextHandle`. -/
def schedule (q : TaskQueue τ) (task : τ) : TaskQueue τ :=
  { q with nextHandle := q.nextHandle + 1, back := (q.nextHandle, task) :: q.back }

/-- Whether the task of a handle is waiting. -/
def isWaiting (q : TaskQueue τ) (handle : Nat) : Bool := q.entries.any (·.1 == handle)

/-- Withdraws the task of a handle. -/
def cancel (q : TaskQueue τ) (handle : Nat) : TaskQueue τ :=
  { q with front := q.front.filter (·.1 != handle), back := q.back.filter (·.1 != handle) }

/-- Takes the oldest task. The tasks behind come to the front when it is empty. -/
def next? (q : TaskQueue τ) : Option (τ × TaskQueue τ) :=
  match q.front with
  | (_, task) :: rest => some (task, { q with front := rest })
  | [] =>
    match q.back.reverse with
    | (_, task) :: rest => some (task, { q with front := rest, back := [] })
    | [] => none

/-- The number of waiting tasks. -/
def pending (q : TaskQueue τ) : Nat := q.front.length + q.back.length

/-! ## Waiting tasks after an operation -/

@[simp]
theorem entries_schedule (q : TaskQueue τ) (task : τ) :
    (q.schedule task).entries = q.entries ++ [(q.nextHandle, task)] := by
  simp [entries, schedule]

@[simp]
theorem nextHandle_schedule (q : TaskQueue τ) (task : τ) :
    (q.schedule task).nextHandle = q.nextHandle + 1 := rfl

@[simp]
theorem entries_cancel (q : TaskQueue τ) (handle : Nat) :
    (q.cancel handle).entries = q.entries.filter (·.1 != handle) := by
  simp [entries, cancel]

@[simp]
theorem nextHandle_cancel (q : TaskQueue τ) (handle : Nat) :
    (q.cancel handle).nextHandle = q.nextHandle := rfl

/-- Nothing is taken exactly when nothing is waiting. -/
theorem next?_eq_none_iff {q : TaskQueue τ} : q.next? = none ↔ q.entries = [] := by
  unfold next? entries
  split
  · simp_all
  · split <;> simp_all

/-- What is taken was the oldest task, and the others keep waiting in order. -/
theorem entries_of_next? {q q' : TaskQueue τ} {task : τ} (h : q.next? = some (task, q')) :
    q'.nextHandle = q.nextHandle ∧ ∃ handle, q.entries = (handle, task) :: q'.entries := by
  unfold next? at h
  split at h
  · rename_i handle _ _ hfront
    obtain ⟨rfl, rfl⟩ := Prod.mk.inj (Option.some.inj h)
    exact ⟨rfl, handle, by simp [entries, hfront]⟩
  · rename_i hfront
    split at h
    · rename_i handle _ _ hback
      obtain ⟨rfl, rfl⟩ := Prod.mk.inj (Option.some.inj h)
      exact ⟨rfl, handle, by simp [entries, hfront, hback]⟩
    · cases h

theorem pending_eq_length (q : TaskQueue τ) : q.pending = q.entries.length := by
  simp [pending, entries]

end TaskQueue

end ReactiveScript
