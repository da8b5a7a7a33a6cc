import Mathlib.Data.List.Nodup
import ReactiveScript.Proofs.Journal.Program
import ReactiveScript.Schedule.Script

/-!
# The order of tasks

A queue is used by the host and by the tasks that run: both schedule and withdraw tasks, in any
order. A `Ledger` is a queue together with the whole history of its tasks. From the fact that every
operation keeps the ledger `Balanced` it follows that tasks are taken in the order in which they
were scheduled, each at most once, and none that was withdrawn.

A `TaskSystem` is anything that drains a queue. The interpreter is one, and so is an agenda of
scripted tasks.
-/

namespace ReactiveScript

namespace TaskQueue

variable {τ : Type}

/-! ## Operations and their record -/

/-- What is done to a queue. -/
inductive Operation (τ : Type) where
  /-- A task is scheduled. -/
  | schedule (task : τ)
  /-- The task of a handle is withdrawn, if it is waiting. -/
  | cancel (handle : Nat)
  /-- The oldest task is taken, if there is one. -/
  | take

namespace Operation

/-- Whether a task may do this while it runs. -/
def isUse : Operation τ → Bool
  | schedule _ | cancel _ => true
  | take => false

/-- The queue after an operation. -/
def apply (q : TaskQueue τ) : Operation τ → TaskQueue τ
  | schedule task => q.schedule task
  | cancel handle => q.cancel handle
  | take =>
    match q.next? with
    | some (_, q') => q'
    | none => q

end Operation

/-- A queue and what became of its tasks, each with its handle. -/
structure Ledger (τ : Type) where
  /-- The queue. -/
  queue : TaskQueue τ := {}
  /-- All tasks that were scheduled, oldest first. -/
  scheduled : List (Nat × τ) := []
  /-- The tasks that were taken to be run, in the order in which they were taken. -/
  taken : List (Nat × τ) := []
  /-- The tasks that were withdrawn. -/
  withdrawn : List (Nat × τ) := []

namespace Ledger

/-- Carries out an operation and records what it does. -/
def apply (l : Ledger τ) (op : Operation τ) : Ledger τ :=
  let l' := { l with queue := op.apply l.queue }
  match op with
  | .schedule task => { l' with scheduled := l.scheduled ++ [(l.queue.nextHandle, task)] }
  | .cancel handle =>
    { l' with withdrawn := l.withdrawn ++ l.queue.entries.filter (·.1 == handle) }
  | .take => { l' with taken := l.taken ++ l.queue.entries.take 1 }

/-- Carries out operations one after the other. -/
def applyAll (l : Ledger τ) (ops : List (Operation τ)) : Ledger τ := ops.foldl apply l

/-- The ledger of a fresh queue after some operations. -/
def after (ops : List (Operation τ)) : Ledger τ := applyAll {} ops

@[simp]
theorem queue_apply (l : Ledger τ) (op : Operation τ) : (l.apply op).queue = op.apply l.queue := by
  cases op <;> rfl

theorem queue_applyAll (l : Ledger τ) (ops : List (Operation τ)) :
    (l.applyAll ops).queue = ops.foldl Operation.apply l.queue := by
  induction ops generalizing l with
  | nil => rfl
  | cons op ops ih => rw [List.foldl_cons, ← queue_apply, ← ih, applyAll, List.foldl_cons, applyAll]

theorem applyAll_cons (l : Ledger τ) (op : Operation τ) (ops : List (Operation τ)) :
    l.applyAll (op :: ops) = (l.apply op).applyAll ops := rfl

theorem applyAll_append (l : Ledger τ) (ops ops' : List (Operation τ)) :
    l.applyAll (ops ++ ops') = (l.applyAll ops).applyAll ops' :=
  List.foldl_append

theorem taken_applyAll_of_isUse (l : Ledger τ) {ops : List (Operation τ)}
    (h : ∀ op ∈ ops, op.isUse) : (l.applyAll ops).taken = l.taken := by
  induction ops generalizing l with
  | nil => rfl
  | cons op ops ih =>
    rw [List.forall_mem_cons] at h
    rw [applyAll_cons, ih _ h.2]
    cases op with
    | schedule | cancel => rfl
    | take => cases h.1

theorem after_append (ops ops' : List (Operation τ)) :
    after (ops ++ ops') = (after ops).applyAll ops' :=
  List.foldl_append

/-- What is true of a ledger after any operations. -/
structure Balanced (l : Ledger τ) : Prop where
  /-- The handles count the tasks. -/
  handles : l.scheduled.map Prod.fst = List.range l.queue.nextHandle
  /-- Each scheduled task was taken or withdrawn, or it is waiting. -/
  accounted : l.scheduled.Perm (l.taken ++ l.withdrawn ++ l.queue.entries)
  /-- Tasks are taken, and wait, in the order in which they were scheduled. -/
  ordered : (l.taken ++ l.queue.entries).Sublist l.scheduled

variable {l : Ledger τ}

theorem withdrawn_subset_apply (l : Ledger τ) (op : Operation τ) :
    l.withdrawn ⊆ (l.apply op).withdrawn := by
  cases op with
  | schedule | take => exact List.Subset.refl _
  | cancel => exact List.subset_append_left ..

theorem withdrawn_subset_applyAll (l : Ledger τ) (ops : List (Operation τ)) :
    l.withdrawn ⊆ (l.applyAll ops).withdrawn := by
  induction ops generalizing l with
  | nil => exact List.Subset.refl _
  | cons op ops ih => exact List.Subset.trans (l.withdrawn_subset_apply op) (ih (l.apply op))

/-! ## What an operation keeps -/

/-- Taking moves the first waiting task over to those that were taken. -/
theorem entries_take (q : TaskQueue τ) : ((Operation.take).apply q).entries = q.entries.drop 1 ∧
    ((Operation.take).apply q).nextHandle = q.nextHandle := by
  cases hnext : q.next? with
  | none => simp [Operation.apply, hnext, next?_eq_none_iff.1 hnext]
  | some result =>
    obtain ⟨hhandle, handle, hentries⟩ := entries_of_next? hnext
    simp [Operation.apply, hnext, hentries, hhandle]

theorem Balanced.schedule (h : l.Balanced) (task : τ) : (l.apply (.schedule task)).Balanced where
  handles := by
    show (l.scheduled ++ [(l.queue.nextHandle, task)]).map Prod.fst = List.range (_ + 1)
    rw [List.map_append, h.handles, List.range_succ]
    rfl
  accounted := by
    show (l.scheduled ++ _).Perm (l.taken ++ l.withdrawn ++ (l.queue.schedule task).entries)
    rw [entries_schedule, ← List.append_assoc]
    exact h.accounted.append_right _
  ordered := by
    show (l.taken ++ (l.queue.schedule task).entries).Sublist (l.scheduled ++ _)
    rw [entries_schedule, ← List.append_assoc]
    exact h.ordered.append_right _

theorem Balanced.cancel (h : l.Balanced) (handle : Nat) :
    (l.apply (.cancel handle)).Balanced where
  handles := h.handles
  accounted := by
    show l.scheduled.Perm (l.taken ++ (l.withdrawn ++ l.queue.entries.filter (·.1 == handle)) ++
      (l.queue.cancel handle).entries)
    rw [entries_cancel, ← List.append_assoc, List.append_assoc (l.taken ++ l.withdrawn)]
    refine h.accounted.trans (List.Perm.append_left _ ?_)
    exact (List.filter_append_perm (·.1 == handle) l.queue.entries).symm
  ordered := by
    show (l.taken ++ (l.queue.cancel handle).entries).Sublist l.scheduled
    rw [entries_cancel]
    exact (List.filter_sublist.append_left l.taken).trans h.ordered

theorem Balanced.take (h : l.Balanced) : (l.apply .take).Balanced := by
  obtain ⟨hentries, hhandle⟩ := entries_take l.queue
  have hsplit := List.take_append_drop 1 l.queue.entries
  refine ⟨?_, ?_, ?_⟩
  · show l.scheduled.map Prod.fst = List.range ((Operation.take).apply l.queue).nextHandle
    rw [hhandle]
    exact h.handles
  · show l.scheduled.Perm (l.taken ++ l.queue.entries.take 1 ++ l.withdrawn ++
      ((Operation.take).apply l.queue).entries)
    rw [hentries, List.append_assoc l.taken]
    refine h.accounted.trans ?_
    nth_rewrite 1 [← hsplit]
    rw [List.append_assoc, List.append_assoc, List.append_assoc]
    refine List.Perm.append_left _ ?_
    rw [← List.append_assoc, ← List.append_assoc]
    exact List.Perm.append_right _ List.perm_append_comm
  · show (l.taken ++ l.queue.entries.take 1 ++
      ((Operation.take).apply l.queue).entries).Sublist l.scheduled
    rw [hentries, List.append_assoc, hsplit]
    exact h.ordered

theorem Balanced.apply (h : l.Balanced) (op : Operation τ) : (l.apply op).Balanced := by
  cases op with
  | schedule task => exact h.schedule task
  | cancel handle => exact h.cancel handle
  | take => exact h.take

theorem Balanced.applyAll (h : l.Balanced) (ops : List (Operation τ)) :
    (l.applyAll ops).Balanced := by
  induction ops generalizing l with
  | nil => exact h
  | cons op ops ih => exact ih (h.apply op)

/-- The ledger of a fresh queue is balanced after any operations. -/
theorem balanced_after (ops : List (Operation τ)) : (after ops).Balanced :=
  Balanced.applyAll (l := {}) ⟨rfl, .nil, .slnil⟩ ops

/-! ## What follows for the tasks -/

theorem Balanced.scheduled_increasing (h : l.Balanced) :
    (l.scheduled.map Prod.fst).Pairwise (· < ·) := by
  rw [h.handles]
  exact List.pairwise_lt_range

/-- Handles of tasks that were taken come before those of waiting ones, and both increase. -/
theorem Balanced.ordered_increasing (h : l.Balanced) :
    ((l.taken ++ l.queue.entries).map Prod.fst).Pairwise (· < ·) :=
  h.scheduled_increasing.sublist (h.ordered.map Prod.fst)

theorem Balanced.count (h : l.Balanced) :
    l.queue.pending + l.taken.length + l.withdrawn.length = l.scheduled.length := by
  rw [pending_eq_length, h.accounted.length_eq, List.length_append, List.length_append]
  omega

/-- No handle is in two places. -/
theorem Balanced.nodup (h : l.Balanced) :
    ((l.taken ++ l.withdrawn ++ l.queue.entries).map Prod.fst).Nodup :=
  (h.accounted.map Prod.fst).nodup_iff.1 (h.scheduled_increasing.imp Nat.ne_of_lt)

/-- A handle finds a waiting task exactly if its task was scheduled and neither taken nor
withdrawn. -/
theorem Balanced.isWaiting_iff (h : l.Balanced) (handle : Nat) :
    l.queue.isWaiting handle = true ↔ handle ∈ l.scheduled.map Prod.fst ∧
      handle ∉ l.taken.map Prod.fst ∧ handle ∉ l.withdrawn.map Prod.fst := by
  have hwaiting : l.queue.isWaiting handle = true ↔ handle ∈ l.queue.entries.map Prod.fst := by
    simp [isWaiting]
  have hmem := (h.accounted.map Prod.fst).mem_iff (a := handle)
  have hnodup := h.nodup
  rw [List.map_append, List.map_append] at hmem hnodup
  rw [hwaiting, hmem, List.mem_append, List.mem_append]
  constructor
  · intro hin
    have hout : ¬ handle ∈ l.taken.map Prod.fst ++ l.withdrawn.map Prod.fst := fun hgone =>
      (List.nodup_append.1 hnodup).2.2 handle hgone handle hin rfl
    rw [List.mem_append, not_or] at hout
    exact ⟨Or.inr hin, hout⟩
  · rintro ⟨(htaken | hwithdrawn) | hin, hnot, hnot'⟩
    · exact absurd htaken hnot
    · exact absurd hwithdrawn hnot'
    · exact hin

end Ledger

/-- Withdrawing a waiting task removes it and no other. -/
theorem entries_cancel_of_isWaiting {q : TaskQueue τ} {handle : Nat}
    (hq : (q.entries.map Prod.fst).Pairwise (· < ·)) (h : q.isWaiting handle = true) :
    ∃ front task back, q.entries = front ++ (handle, task) :: back ∧
      (q.cancel handle).entries = front ++ back := by
  obtain ⟨⟨found, task⟩, hmem, hhandle⟩ := List.any_eq_true.1 h
  obtain rfl : found = handle := eq_of_beq hhandle
  obtain ⟨front, back, hentries⟩ := List.append_of_mem hmem
  refine ⟨front, task, back, hentries, ?_⟩
  rw [hentries, List.map_append, List.map_cons, List.pairwise_append, List.pairwise_cons] at hq
  obtain ⟨-, ⟨hback, -⟩, hfront⟩ := hq
  -- The handles before are smaller and the handles behind are greater.
  have hkeep : ∀ entry, entry ∈ front ∨ entry ∈ back → (entry.1 != found) = true := by
    intro entry hentry
    rcases hentry with hentry | hentry
    · have := hfront entry.1 (List.mem_map_of_mem hentry) found (List.mem_cons_self ..)
      exact bne_iff_ne.2 (Nat.ne_of_lt this)
    · have := hback entry.1 (List.mem_map_of_mem hentry)
      exact bne_iff_ne.2 (Nat.ne_of_gt this)
  rw [entries_cancel, hentries, List.filter_append, List.filter_cons_of_neg (by simp),
    List.filter_eq_self.2 fun entry hentry => hkeep entry (Or.inl hentry),
    List.filter_eq_self.2 fun entry hentry => hkeep entry (Or.inr hentry)]

theorem entries_cancel_of_not_isWaiting {q : TaskQueue τ} {handle : Nat}
    (h : q.isWaiting handle = false) : (q.cancel handle).entries = q.entries := by
  rw [entries_cancel, List.filter_eq_self]
  intro entry hentry
  have hne := List.any_eq_false.1 h entry hentry
  simpa using hne

/-- What a ledger says about its tasks. -/
structure Ledger.Orderly (l : Ledger τ) : Prop where
  /-- No two tasks have the same handle. -/
  distinct : (l.scheduled.map Prod.fst).Nodup
  /-- The handles of the waiting tasks increase. -/
  increasing : (l.queue.entries.map Prod.fst).Pairwise (· < ·)
  /-- Tasks are taken in the order in which they were scheduled, each at most once, and ahead of
  those that still wait. -/
  ordered : (l.taken ++ l.queue.entries).Sublist l.scheduled
  /-- Each scheduled task was taken or withdrawn, or it is waiting, and only one of these. -/
  accounted : l.scheduled.Perm (l.taken ++ l.withdrawn ++ l.queue.entries)
  /-- The number of waiting tasks. -/
  count : l.queue.pending + l.taken.length + l.withdrawn.length = l.scheduled.length
  /-- A handle is found exactly if its task was neither taken nor withdrawn. -/
  found : ∀ handle, l.queue.isWaiting handle = true ↔ handle ∈ l.scheduled.map Prod.fst ∧
    handle ∉ l.taken.map Prod.fst ∧ handle ∉ l.withdrawn.map Prod.fst
  /-- If it is found, this task is removed and no other. -/
  removed : ∀ handle, l.queue.isWaiting handle = true →
    ∃ front task back, l.queue.entries = front ++ (handle, task) :: back ∧
      (l.queue.cancel handle).entries = front ++ back
  /-- If it is not found, nothing is removed. -/
  kept : ∀ handle, l.queue.isWaiting handle = false →
    (l.queue.cancel handle).entries = l.queue.entries

theorem Ledger.orderly_after (ops : List (Operation τ)) : (after ops).Orderly := by
  have h := balanced_after ops
  have hwaiting : ((after ops).queue.entries.map Prod.fst).Pairwise (· < ·) :=
    h.ordered_increasing.sublist ((List.sublist_append_right ..).map Prod.fst)
  exact
    { distinct := h.scheduled_increasing.imp Nat.ne_of_lt
      increasing := hwaiting
      ordered := h.ordered
      accounted := h.accounted
      count := h.count
      found := h.isWaiting_iff
      removed := fun _ hfound => entries_cancel_of_isWaiting hwaiting hfound
      kept := fun _ hfound => entries_cancel_of_not_isWaiting hfound }

/-- A task that was withdrawn is never taken. -/
theorem Ledger.not_taken_of_withdrawn {ops : List (Operation τ)} {entry : Nat × τ}
    (h : entry ∈ (after ops).withdrawn) (ops' : List (Operation τ)) :
    entry ∉ (after (ops ++ ops')).taken := by
  have hkept : (after ops).withdrawn ⊆ (after (ops ++ ops')).withdrawn := by
    rw [after_append]
    exact withdrawn_subset_applyAll _ ops'
  intro htaken
  have hnodup := (balanced_after (ops ++ ops')).nodup
  rw [List.map_append, List.map_append, List.nodup_append, List.nodup_append] at hnodup
  exact hnodup.1.2.2 _ (List.mem_map_of_mem htaken) _ (List.mem_map_of_mem (hkept h)) rfl

end TaskQueue

/-! ## Draining -/

open TaskQueue

/-- States with a queue that is drained as `TaskQueue.drain` does it. While a task runs, it may
schedule and withdraw tasks. -/
structure TaskSystem (σ τ : Type) where
  /-- The queue of a state. -/
  queue : σ → TaskQueue τ
  /-- Whether the drain was told to halt. -/
  halted : σ → Bool
  /-- Takes the next task off the queue. -/
  take : σ → Option (τ × σ)
  /-- Carries out a task. -/
  run : τ → σ → Option σ
  take_none {s : σ} : take s = none → (queue s).next? = none
  take_some {s s' : σ} {task : τ} : take s = some (task, s') →
    (queue s).next? = some (task, queue s')
  run_uses {s s' : σ} {task : τ} : run task s = some s' →
    ∃ ops : List (Operation τ), (∀ op ∈ ops, op.isUse) ∧
      queue s' = ops.foldl Operation.apply (queue s)

namespace TaskSystem

variable {σ τ ε : Type} (sys : TaskSystem σ τ)

theorem take_eq_none {s : σ} (h : (sys.queue s).entries = []) : sys.take s = none := by
  cases htake : sys.take s with
  | none => rfl
  | some result =>
    obtain ⟨-, handle, hentries⟩ := entries_of_next? (sys.take_some htake)
    rw [h] at hentries
    cases hentries

/-- Drains the queue of a state. -/
def drain (halt : ε) (fuel : Nat) (s : σ) : Outcome σ ε Nat :=
  TaskQueue.drain sys.halted halt sys.take sys.run fuel 0 s

/-- The given tasks are taken and run one after the other, with no halt before any of them. -/
inductive Runs : σ → List τ → σ → Prop where
  | none (s : σ) : Runs s [] s
  | next {s taken ran s' : σ} {task : τ} {tasks : List τ} (hgo : sys.halted s = false)
    (htake : sys.take s = some (task, taken)) (hrun : sys.run task taken = some ran)
    (h : Runs ran tasks s') : Runs s (task :: tasks) s'

variable {s s' : σ}

/-- How a drain can end. After some tasks none is left or it is told to halt, unless the fuel runs
out. -/
inductive Turn (sys : TaskSystem σ τ) (halt : ε) (s : σ) (fuel ran : Nat) : Outcome σ ε Nat → Prop
  | done {tasks : List τ} {s' : σ} (hruns : sys.Runs s tasks s') (hfuel : tasks.length < fuel)
    (hgo : sys.halted s' = false) (hnone : sys.take s' = none) :
    Turn sys halt s fuel ran (.ok (ran + tasks.length) s')
  | halted {tasks : List τ} {s' : σ} (hruns : sys.Runs s tasks s') (hfuel : tasks.length < fuel)
    (hhalted : sys.halted s' = true) : Turn sys halt s fuel ran (.error halt s')
  | exhausted : Turn sys halt s fuel ran .exhausted

/-- A task that runs first is one more task of the turn. -/
theorem Turn.next {sys : TaskSystem σ τ} {halt : ε} {taken next : σ} {task : τ} {fuel ran : Nat}
    {o : Outcome σ ε Nat} (hgo : sys.halted s = false) (htake : sys.take s = some (task, taken))
    (hrun : sys.run task taken = some next) (h : Turn sys halt next fuel (ran + 1) o) :
    Turn sys halt s (fuel + 1) ran o := by
  cases h with
  | @done tasks _ hruns hfuel hgo' hnone =>
    have hcount : ran + 1 + tasks.length = ran + (task :: tasks).length := by
      rw [List.length_cons, Nat.add_assoc, Nat.add_comm 1]
    rw [hcount]
    exact .done (.next hgo htake hrun hruns) (Nat.succ_lt_succ hfuel) hgo' hnone
  | halted hruns hfuel hhalted =>
    exact .halted (.next hgo htake hrun hruns) (Nat.succ_lt_succ hfuel) hhalted
  | exhausted => exact .exhausted

theorem turn_drain (halt : ε) (fuel ran : Nat) (s : σ) :
    Turn sys halt s fuel ran (TaskQueue.drain sys.halted halt sys.take sys.run fuel ran s) := by
  induction fuel generalizing s ran with
  | zero => exact .exhausted
  | succ fuel ih =>
    unfold TaskQueue.drain
    cases hhalted : sys.halted s with
    | true => exact .halted (.none s) (Nat.succ_pos fuel) hhalted
    | false =>
      cases htake : sys.take s with
      | none => exact .done (.none s) (Nat.succ_pos fuel) hhalted htake
      | some result =>
        obtain ⟨task, taken⟩ := result
        cases hrun : sys.run task taken with
        | none => simpa [hrun] using Turn.exhausted
        | some next => simpa [hrun] using (ih (ran + 1) next).next hhalted htake hrun

variable {sys}

/-- Tasks that can run do run. -/
theorem Runs.drain_eq {tasks : List τ} (h : sys.Runs s tasks s') (halt : ε) (fuel ran : Nat) :
    TaskQueue.drain sys.halted halt sys.take sys.run (fuel + tasks.length) ran s =
      TaskQueue.drain sys.halted halt sys.take sys.run fuel (ran + tasks.length) s' := by
  induction h generalizing ran with
  | none => rfl
  | @next s taken next s' task tasks hgo htake hrun _ ih =>
    rw [List.length_cons, ← Nat.add_assoc, ← Nat.add_assoc, Nat.add_right_comm ran, ← ih (ran + 1)]
    nth_rewrite 1 [TaskQueue.drain]
    simp only [hgo, htake, hrun, Bool.false_eq_true, if_false]

/-- A drain comes to an end if its tasks do: none is left, or it is told to halt. -/
theorem Runs.drain_ne_exhausted {tasks : List τ} (h : sys.Runs s tasks s')
    (hend : sys.halted s' = true ∨ (sys.queue s').entries = []) (halt : ε) {fuel : Nat}
    (hfuel : tasks.length < fuel) : sys.drain halt fuel s ≠ .exhausted := by
  obtain ⟨more, rfl⟩ := Nat.exists_eq_add_of_lt hfuel
  rw [drain, Nat.add_comm tasks.length, Nat.add_right_comm, h.drain_eq, TaskQueue.drain]
  cases hhalted : sys.halted s' with
  | true => simp
  | false =>
    have hempty := hend.resolve_left (by simp [hhalted])
    simp [sys.take_eq_none hempty]

/-! ## The history behind a drain -/

/-- After some operations on a fresh queue, tasks with their handles are taken and run. Some more
operations have then led to the queue that is left, and of the tasks that these took, each was
run. -/
structure Ran (sys : TaskSystem σ τ) (ops : List (Operation τ)) (s : σ) (ran : List (Nat × τ))
    (q : TaskQueue τ) : Prop where
  runs : ∃ s', sys.Runs s (ran.map Prod.snd) s' ∧ sys.queue s' = q
  history : ∃ ops', q = (Ledger.after (ops ++ ops')).queue ∧
    (Ledger.after (ops ++ ops')).taken = (Ledger.after ops).taken ++ ran

/-- The tasks that are run are the ones that leave the queue for it. -/
theorem Runs.ledger {tasks : List τ} (h : sys.Runs s tasks s') {l : Ledger τ}
    (hs : sys.queue s = l.queue) : ∃ ops ran, ran.map Prod.snd = tasks ∧
      sys.queue s' = (l.applyAll ops).queue ∧ (l.applyAll ops).taken = l.taken ++ ran := by
  induction h generalizing l with
  | none => exact ⟨[], [], rfl, hs, (List.append_nil l.taken).symm⟩
  | @next s taken next s' task tasks hgo htake hrun _ ih =>
    have hnext := sys.take_some htake
    obtain ⟨-, handle, hentries⟩ := entries_of_next? hnext
    obtain ⟨uses, huses, hqueue⟩ := sys.run_uses hrun
    rw [hs] at hnext hentries
    have htaken : (l.apply .take).queue = sys.queue taken := by
      rw [Ledger.queue_apply, Operation.apply, hnext]
    rw [← htaken, ← Ledger.queue_applyAll] at hqueue
    obtain ⟨ops, ran, htasks, hend, hran⟩ := ih hqueue
    rw [Ledger.taken_applyAll_of_isUse _ huses] at hran
    refine ⟨.take :: (uses ++ ops), (handle, task) :: ran, by rw [List.map_cons, htasks], ?_, ?_⟩
    · rw [hend, ← Ledger.applyAll_append]
      rfl
    · rw [Ledger.applyAll_cons, Ledger.applyAll_append, hran]
      show l.taken ++ l.queue.entries.take 1 ++ ran = _
      rw [hentries, List.append_assoc]
      rfl

/-- What a drain comes to after some operations on a fresh queue: it has run tasks, and either none
is left, or it was told to halt and the others are still in the queue. No other failure comes out of
it. -/
inductive Drained (sys : TaskSystem σ τ) (ops : List (Operation τ)) (s : σ) :
    Outcome σ Failure Nat → Prop where
  | done {ran : List (Nat × τ)} {s' : σ} (h : sys.Ran ops s ran (sys.queue s'))
    (hnone : (sys.queue s').entries = []) : Drained sys ops s (.ok ran.length s')
  | interrupted {ran : List (Nat × τ)} {s' : σ} (h : sys.Ran ops s ran (sys.queue s'))
    (hhalted : sys.halted s' = true) : Drained sys ops s (.error .interrupted s')
  | exhausted : Drained sys ops s .exhausted

theorem Runs.ran {tasks : List τ} (h : sys.Runs s tasks s') {ops : List (Operation τ)}
    (hs : sys.queue s = (Ledger.after ops).queue) :
    ∃ ran, ran.length = tasks.length ∧ sys.Ran ops s ran (sys.queue s') := by
  obtain ⟨ops', ran, rfl, hqueue, htaken⟩ := h.ledger hs
  rw [← Ledger.after_append] at hqueue htaken
  exact ⟨ran, (List.length_map Prod.snd).symm, ⟨s', h, rfl⟩, ops', hqueue, htaken⟩

theorem drained (sys : TaskSystem σ τ) {ops : List (Operation τ)}
    (hs : sys.queue s = (Ledger.after ops).queue) (fuel : Nat) :
    sys.Drained ops s (sys.drain .interrupted fuel s) := by
  have hturn := sys.turn_drain Failure.interrupted fuel 0 s
  rw [← drain] at hturn
  generalize sys.drain Failure.interrupted fuel s = o at hturn
  cases hturn with
  | done hruns _ _ hnone =>
    obtain ⟨ran, hlength, hran⟩ := hruns.ran hs
    rw [Nat.zero_add, ← hlength]
    exact .done hran (next?_eq_none_iff.1 (sys.take_none hnone))
  | halted hruns _ hhalted =>
    obtain ⟨ran, -, hran⟩ := hruns.ran hs
    exact .interrupted hran hhalted
  | exhausted => exact .exhausted

end TaskSystem

/-! ## Systems -/

/-- An agenda uses its queue by the actions of its tasks. -/
theorem Agenda.uses_foldl_act (actions : List Action) (a : Agenda) :
    ∃ ops : List (Operation ScriptedTask), (∀ op ∈ ops, op.isUse) ∧
      (actions.foldl act a).queue = ops.foldl Operation.apply a.queue := by
  induction actions generalizing a with
  | nil => exact ⟨[], by simp, rfl⟩
  | cons action actions ih =>
    obtain ⟨ops, huses, hqueue⟩ := ih (a.act action)
    rw [List.foldl_cons, hqueue]
    cases action with
    | later label actions =>
      exact ⟨.schedule ⟨label, actions⟩ :: ops, List.forall_mem_cons.2 ⟨rfl, huses⟩, rfl⟩
    | cancel handle => exact ⟨.cancel handle :: ops, List.forall_mem_cons.2 ⟨rfl, huses⟩, rfl⟩
    | interrupt => exact ⟨ops, huses, rfl⟩

/-- The tasks of an agenda. -/
def Agenda.system : TaskSystem Agenda ScriptedTask where
  queue := Agenda.queue
  halted := Agenda.interrupted
  take := Agenda.take?
  run task a := some (a.run task)
  take_none {a} h := by
    unfold Agenda.take? at h
    split at h
    · assumption
    · cases h
  take_some {a a' task} h := by
    unfold Agenda.take? at h
    split at h
    · cases h
    · rename_i hnext
      cases h
      exact hnext
  run_uses {a a' task} h := by
    cases h
    exact Agenda.uses_foldl_act task.actions (a.note task.label)

namespace Interpreter

/-- A handler may cause more notifications. -/
theorem uses_deliver {ctx : Context} {fuel : Nat} {task : Notification} {s s' : State}
    (h : deliver ctx fuel task s = some s') :
    ∃ ops : List (Operation Notification), (∀ op ∈ ops, op.isUse) ∧
      s'.queue = ops.foldl Operation.apply s.queue := by
  have hrun : (notifyHandler ctx fuel task s).Leaves fun s' => ∃ changes, Run .call s changes s' :=
    (Journals.notifyHandler ctx fuel task s).imp fun _ ⟨changes, hrun, _⟩ => ⟨changes, hrun⟩
  unfold deliver at h
  have hleaves : ∃ changes, Run .call s changes s' := by
    generalize notifyHandler ctx fuel task s = o at h hrun
    cases hrun with
    | ok hs' | error hs' =>
      cases h
      exact hs'
    | exhausted => cases h
  obtain ⟨changes, hrun⟩ := hleaves
  refine ⟨(changes.flatMap Change.tasks).map .schedule,
    List.forall_mem_map.2 fun _ _ => rfl, ?_⟩
  rw [hrun.queue, List.foldl_map]
  rfl

/-- The notifications of an interpreter. -/
def system (ctx : Context) (fuel : Nat) : TaskSystem State Notification where
  queue := State.queue
  halted := State.interrupted
  take := takeNotification
  run := deliver ctx fuel
  take_none {s} h := by
    unfold takeNotification at h
    split at h
    · assumption
    · cases h
  take_some {s s' task} h := by
    unfold takeNotification at h
    split at h
    · cases h
    · rename_i hnext
      cases h
      exact hnext
  run_uses := uses_deliver

/-- Notifications are delivered by draining the queue. Only the log says more. -/
theorem runPending_eq (ctx : Context) (fuel : Nat) (s : State) :
    ∃ log : Nat → Array Event → Array Event, runPending ctx fuel s =
      match (system ctx fuel).drain .interrupted fuel s with
      | .ok ran s => .ok ran { s with events := log ran s.events }
      | .error failure s => .error failure s
      | .exhausted => .exhausted := by
  refine ⟨fun ran events => if 0 < ran then events.push (.drained ran) else events, ?_⟩
  show Eval.bind ((system ctx fuel).drain Failure.interrupted fuel) _ s = _
  unfold Eval.bind
  cases (system ctx fuel).drain Failure.interrupted fuel s with
  | ok ran s => by_cases hran : 0 < ran <;> simp only [hran, if_true, if_false] <;> rfl
  | error | exhausted => rfl

theorem drained_runPending {ctx : Context} {fuel : Nat} {ops : List (Operation Notification)}
    {s : State} (hs : s.queue = (Ledger.after ops).queue) :
    (system ctx fuel).Drained ops s (runPending ctx fuel s) := by
  obtain ⟨log, hlog⟩ := runPending_eq ctx fuel s
  have h := (system ctx fuel).drained hs fuel
  rw [hlog]
  generalize (system ctx fuel).drain Failure.interrupted fuel s = o at h
  cases h with
  | done hran hnone => exact .done hran hnone
  | interrupted hran hhalted => exact .interrupted hran hhalted
  | exhausted => exact .exhausted

end Interpreter

/-- Tasks run in the order in which they were scheduled, each at most once, and none that was
withdrawn. This is so after any operations on a fresh queue, whether they come from the host or from
a task that runs. A drain that ends well has counted the tasks it ran and has left none; one that
fails was interrupted, and has left all tasks that it did not run. It ends if its tasks do. -/
theorem tasks_run_once_in_order :
    (∀ (τ : Type) (ops : List (Operation τ)), (Ledger.after ops).Orderly ∧
      ∀ entry ∈ (Ledger.after ops).withdrawn, ∀ ops', entry ∉ (Ledger.after (ops ++ ops')).taken) ∧
    (∀ (σ τ : Type) (sys : TaskSystem σ τ) (ops : List (Operation τ)) (s : σ) (fuel : Nat),
      sys.queue s = (Ledger.after ops).queue →
        sys.Drained ops s (sys.drain .interrupted fuel s) ∧
        ∀ tasks s', sys.Runs s tasks s' →
          sys.halted s' = true ∨ (sys.queue s').entries = [] →
          tasks.length < fuel → sys.drain Failure.interrupted fuel s ≠ .exhausted) ∧
    (∀ (ctx : Context) (fuel : Nat) (ops : List (Operation Notification)) (s : State),
      s.queue = (Ledger.after ops).queue →
        (Interpreter.system ctx fuel).Drained ops s (Interpreter.runPending ctx fuel s)) ∧
    (∀ (fuel : Nat) (ops : List (Operation ScriptedTask)) (a : Agenda),
      a.queue = (Ledger.after ops).queue → Agenda.system.Drained ops a (a.runPending fuel)) := by
  refine ⟨fun τ ops => ⟨Ledger.orderly_after ops, fun entry => Ledger.not_taken_of_withdrawn⟩,
    fun σ τ sys ops s fuel hs => ⟨sys.drained hs fuel, fun tasks s' hruns hend hfuel => ?_⟩,
    fun ctx fuel ops s hs => Interpreter.drained_runPending hs,
    fun fuel ops a ha => Agenda.system.drained ha fuel⟩
  exact hruns.drain_ne_exhausted hend Failure.interrupted hfuel

/-- The first task withdraws the second one and itself, which runs already, and schedules two more.
The third one asks to stop, so that the last one is left. -/
def busyOps : List (Operation ScriptedTask) :=
  [.schedule ⟨"first", [.cancel 1, .cancel 0, .later "third" [.interrupt], .later "last" []]⟩,
    .schedule ⟨"second", []⟩]

/-- The agenda of these tasks. -/
def busyAgenda : Agenda where
  queue := (Ledger.after busyOps).queue

theorem tasks_run_once_in_order_busyAgenda :
    Agenda.system.Drained busyOps busyAgenda (busyAgenda.runPending 3) ∧
    ∃ a, busyAgenda.runPending 3 = .error .interrupted a ∧
      a.records = ["first", "cancel:true", "cancel:false", "third"] ∧
      a.queue.entries.map Prod.fst = [3] :=
  ⟨tasks_run_once_in_order.2.2.2 3 busyOps busyAgenda rfl, _, rfl, rfl, rfl⟩

end ReactiveScript
