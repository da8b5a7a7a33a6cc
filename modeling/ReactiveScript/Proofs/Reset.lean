import ReactiveScript.Proofs.CallDepth
import ReactiveScript.Proofs.Outputs
import ReactiveScript.Proofs.StandardHost

/-!
# Resetting an interpreter

A reset forgets the variables, and their observers with them, the exports and a request to stop. It
does not touch the queue: notifications that wait when an interpreter is reset still wait
afterwards. An interpreter that was reset is therefore a new one whose queue holds these
notifications, and as long as none is delivered they make no difference to what it does.
-/

namespace ReactiveScript

/-- The first queue holds some tasks and behind them those of the second one. -/
def TaskQueue.Behind {τ : Type} (tasks : List τ) (queue queue' : TaskQueue τ) : Prop :=
  queue.entries.map Prod.snd = tasks ++ queue'.entries.map Prod.snd

namespace TaskQueue

variable {τ : Type} {tasks : List τ} {queue queue' : TaskQueue τ}

theorem Behind.schedule (h : Behind tasks queue queue') (task : τ) :
    Behind tasks (queue.schedule task) (queue'.schedule task) := by
  unfold Behind at h ⊢
  rw [entries_schedule, entries_schedule, List.map_append, List.map_append, h, List.append_assoc]
  rfl

/-- The next task is the first of those that wait. -/
theorem next?_of_map_entries {task : τ} {rest : List τ}
    (h : queue.entries.map Prod.snd = task :: rest) :
    ∃ after, queue.next? = some (task, after) ∧ after.entries.map Prod.snd = rest := by
  cases hnext : queue.next? with
  | none =>
    rw [next?_eq_none_iff.1 hnext] at h
    cases h
  | some next =>
    obtain ⟨first, after⟩ := next
    obtain ⟨-, handle, hentries⟩ := entries_of_next? hnext
    rw [hentries, List.map_cons] at h
    obtain ⟨rfl, hrest⟩ := List.cons.inj h
    exact ⟨after, rfl, hrest⟩

end TaskQueue

open TaskQueue

/-- Queues that hold the same tasks deliver the same, whatever the handles. -/
theorem delivering_behind_nil : Delivering (Behind []) := by
  intro queue queue' h
  change queue.entries.map Prod.snd = queue'.entries.map Prod.snd at h
  cases htasks : queue'.entries.map Prod.snd with
  | nil =>
    have hqueue : queue.entries = [] := List.map_eq_nil_iff.1 (h.trans htasks)
    have hqueue' : queue'.entries = [] := List.map_eq_nil_iff.1 htasks
    rw [next?_eq_none_iff.2 hqueue, next?_eq_none_iff.2 hqueue']
    exact .none
  | cons task rest =>
    obtain ⟨after, hnext, hrest⟩ := next?_of_map_entries (h.trans htasks)
    obtain ⟨after', hnext', hrest'⟩ := next?_of_map_entries htasks
    rw [hnext, hnext']
    exact .some ⟨rfl, hrest.trans hrest'.symm⟩

/-- Tasks that wait in front make no difference to what is appended. -/
theorem outputRelation_behind (trace : Bool) (tasks : List Notification) :
    OutputRelation trace trace (Behind tasks) Eq where
  toLogRelation := .eq trace
  schedule task h := h.schedule task

namespace State

variable {limit : Nat} {store : Store} {events : Array Event} {history : List Visit} {s : State}

/-- No session changes the limit of calls. -/
theorem maxCallDepth_of_serve? (h : serve? Evaluator.level history (fresh limit store events) =
    some s) : s.env.maxCallDepth = limit := by
  have hstart : 0 < (fresh limit store events).env.depth ∧
      (fresh limit store events).env.CountsCalls limit := ⟨Nat.one_pos, .fresh limit⟩
  obtain ⟨-, hleaves⟩ := (Environment.CountsCalls.law limit).serve_guardedLevel
    (fun _ henv => henv.2) (fun _ henv => ⟨Nat.one_pos, henv.2.clear⟩) .empty history hstart
  exact (hleaves s h).2.maxCallDepth

/-- An interpreter that was reset is a new one, but for the queue. -/
theorem reset_eq_fresh (h : s.env.maxCallDepth = limit) :
    s.reset = { fresh limit s.store s.events with queue := s.queue } := by
  unfold reset fresh Environment.clear
  rw [h]

theorem reset_sameBut_fresh (h : s.env.maxCallDepth = limit) :
    s.reset.SameBut (Behind (s.queue.entries.map Prod.snd)) Eq (fresh limit s.store s.events) := by
  have hqueue : Behind (s.queue.entries.map Prod.snd) s.queue {} := (List.append_nil _).symm
  rw [reset_eq_fresh h]
  exact .intro hqueue rfl

end State

/-- An interpreter is in the same state as another one, but for tasks that wait in front of the
others, and programs come to the same in both. -/
structure State.GoesOnLike (tasks : List Notification) (s s' : State) : Prop where
  state : s.SameBut (Behind tasks) Eq s'
  execute (ctx : Context) (fuel : Nat) (program : List Stmt) :
    (Interpreter.execute ctx fuel program s).SameBut (Behind tasks) Eq Eq
      (Interpreter.execute ctx fuel program s')

open State

/-- A reset forgets all observers, but no notification that waits. After any session, a reset
leaves a new interpreter whose queue holds what waited before. Until a notification is delivered,
and for good if none waited, it does what a new interpreter with an empty queue does in every
session: it ends in the same state, the lines on the console, the log, the variables and the exports
included, with the same notifications queued behind those that waited, and then every program has
the same value or failure. -/
theorem reset_keeps_waiting_notifications_only (limit : Nat) (store : Store) (events : Array Event)
    (history : List Visit) (s : State)
    (h : serve? Evaluator.level history (fresh limit store events) = some s) :
    s.reset = { fresh limit s.store s.events with queue := s.queue } ∧
      ∀ visits : List Visit,
        (∀ visit ∈ visits, visit.request.delivers = true → s.queue.entries = []) →
        Option.Rel (GoesOnLike (s.queue.entries.map Prod.snd))
          (serve? Evaluator.level visits s.reset)
          (serve? Evaluator.level visits (fresh limit s.store s.events)) := by
  have hlimit := maxCallDepth_of_serve? h
  refine ⟨reset_eq_fresh hlimit, fun visits hvisits => ?_⟩
  have hoften := fun trace => outputRelation_behind trace (s.queue.entries.map Prod.snd)
  have hdelivering : ∀ visit ∈ visits, visit.request.delivers = true →
      Delivering (Behind (s.queue.entries.map Prod.snd)) := by
    intro visit hvisit hdelivers
    rw [hvisits visit hvisit hdelivers]
    exact delivering_behind_nil
  have hserve := (reset_sameBut_fresh hlimit).serve? (fun visit => visit.ctx.trace)
    (fun visit _ => hoften visit.ctx.trace) hdelivering
  have hsame : visits.map (fun visit => visit.tracing visit.ctx.trace) = visits := List.map_id _
  rw [hsame] at hserve
  generalize serve? Evaluator.level visits s.reset = o at hserve
  generalize serve? Evaluator.level visits _ = o' at hserve
  cases hserve with
  | none => exact .none
  | some hs =>
    refine .some ⟨hs, fun ctx fuel program => ?_⟩
    exact (hoften ctx.trace).congruence.execute fuel program _ _ hs

/-- A variable whose observer writes a line, and a change of the variable. -/
def announcedChange : List Stmt :=
  let line := Expr.of (.call (Expr.of (.member (Expr.of (.ident "console")) "log"))
    [Expr.of (.literal (.string "old"))])
  [Stmt.of (.declare .blockScoped [("x", some (Expr.of (.literal .null)))]),
    Stmt.of (.observe ["x"] (Expr.of (.function none [] [Stmt.of (.expression line)]))),
    Stmt.of (.expression (Expr.of (.assign none (Expr.of (.ident "x"))
      (Expr.of (.literal (.bool true))))))]

/-- An interpreter with the standard globals that has executed this program, without delivering the
notification. -/
def announced : List Visit := [⟨Host.standardContext, 8, .execute announcedChange⟩]

/-- The notification waits behind the reset, and the next program does not notice it. Once it has
been delivered, the interpreter that is reset is as good as new. -/
theorem reset_keeps_waiting_notifications_only_announced :
    (∃ s, serve? Evaluator.level announced (fresh 2 Host.standardStart.store #[]) = some s ∧
      s.queue.pending = 1 ∧
      s.reset = { fresh 2 s.store s.events with queue := s.queue } ∧
      Option.Rel (GoesOnLike (s.queue.entries.map Prod.snd))
        (serve? Evaluator.level announced s.reset)
        (serve? Evaluator.level announced (fresh 2 s.store s.events))) ∧
    ∃ s, serve? Evaluator.level (announced ++ [⟨Host.standardContext, 8, .runPending⟩])
        (fresh 2 Host.standardStart.store #[]) = some s ∧ s.queue.entries = [] ∧
      Option.Rel (GoesOnLike (s.queue.entries.map Prod.snd))
        (serve? Evaluator.level [⟨Host.standardContext, 8, .run announcedChange⟩] s.reset)
        (serve? Evaluator.level [⟨Host.standardContext, 8, .run announcedChange⟩]
          (fresh 2 s.store s.events)) := by
  constructor
  · have hpending : (serve? Evaluator.level announced
        (fresh 2 Host.standardStart.store #[])).map (·.queue.pending) = some 1 := by
      decide +kernel
    obtain ⟨s, hs, hone⟩ := Option.map_eq_some_iff.1 hpending
    obtain ⟨hreset, hsession⟩ := reset_keeps_waiting_notifications_only 2 _ _ announced s hs
    refine ⟨s, hs, hone, hreset, hsession announced ?_⟩
    intro visit hvisit hdelivers
    rw [List.mem_singleton.1 hvisit] at hdelivers
    cases hdelivers
  · have hpending : (serve? Evaluator.level (announced ++ [⟨Host.standardContext, 8, .runPending⟩])
        (fresh 2 Host.standardStart.store #[])).map (·.queue.pending) = some 0 := by
      decide +kernel
    obtain ⟨s, hs, hnone⟩ := Option.map_eq_some_iff.1 hpending
    rw [pending_eq_length, List.length_eq_zero_iff] at hnone
    obtain ⟨-, hsession⟩ := reset_keeps_waiting_notifications_only 2 _ _ _ s hs
    exact ⟨s, hs, hnone, hsession _ fun _ _ _ => hnone⟩

/-- A reset does not forget the handler whose notification waits: the empty program, run after the
reset, writes the line of the old handler, which it does not do on a new interpreter. -/
theorem waiting_handler_survives_reset :
    ((serve? Evaluator.level announced (fresh 2 Host.standardStart.store #[])).bind fun s =>
        serve? Evaluator.level [⟨Host.standardContext, 8, .run []⟩] s.reset).map
          (·.store.console) = some #["old"] ∧
      ((serve? Evaluator.level announced (fresh 2 Host.standardStart.store #[])).bind fun s =>
        serve? Evaluator.level [⟨Host.standardContext, 8, .run []⟩]
          (fresh 2 s.store s.events)).map (·.store.console) = some #[] := by
  decide +kernel

end ReactiveScript
