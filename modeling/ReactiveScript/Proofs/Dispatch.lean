import Mathlib.Data.List.Forall2
import ReactiveScript.Proofs.Preservation

/-!
# Dispatch of notifications

Evaluation never calls an observer. It queues tasks, and it does so in one place only: where an
assignment gives a variable another value. `Rule.assignment` says what that comes to. A `Run` is a
sequence of the elementary steps that evaluation is made of, labelled with the changes of variables
on the way, and `Run.queue` says that the queue then has grown by the tasks of these changes, in
their order, and in no other way.
-/

namespace ReactiveScript

/-! ## Queues after many tasks -/

namespace TaskQueue

variable {τ : Type}

/-- Tasks under consecutive handles. -/
def numbered (handle : Nat) : List τ → List (Nat × τ)
  | [] => []
  | task :: tasks => (handle, task) :: numbered (handle + 1) tasks

/-- Schedules tasks one after the other. -/
def scheduleAll (q : TaskQueue τ) (tasks : List τ) : TaskQueue τ := tasks.foldl schedule q

theorem scheduleAll_append (q : TaskQueue τ) (tasks tasks' : List τ) :
    q.scheduleAll (tasks ++ tasks') = (q.scheduleAll tasks).scheduleAll tasks' :=
  List.foldl_append

/-- Tasks that are scheduled wait behind all others, in their order. -/
theorem entries_scheduleAll (q : TaskQueue τ) (tasks : List τ) :
    (q.scheduleAll tasks).entries = q.entries ++ numbered q.nextHandle tasks := by
  induction tasks generalizing q with
  | nil => exact (List.append_nil q.entries).symm
  | cons task tasks ih =>
    show ((q.schedule task).scheduleAll tasks).entries = _
    rw [ih, entries_schedule, nextHandle_schedule, List.append_assoc]
    rfl

end TaskQueue

/-! ## The tasks of a change -/

/-- The store with more records. -/
def Store.withRecords (st : Store) (added : Array (OrderedMap Value)) : Store :=
  { st with records := st.records ++ added }

theorem Store.withRecords_withRecords (st : Store) (added added' : Array (OrderedMap Value)) :
    (st.withRecords added).withRecords added' = st.withRecords (added ++ added') := by
  simp [withRecords, Array.append_assoc]

theorem Store.record_withRecords {st : Store} {i : Ref} (h : i < st.records.size)
    (added : Array (OrderedMap Value)) : (st.withRecords added).record i = st.record i := by
  simp [withRecords, record, Array.getElem?_append_left h]

/-- A record that tells of a change: the variable, the values of the watched variables after the
change, and the values before and after. -/
structure Store.TellsOf (st : Store) (m : Mutation) (env : Environment) (names : List String)
    (info : Ref) : Prop where
  stored : info < st.records.size
  told : ∃ values < st.records.size, st.record values = Rule.watchedValues env names ∧
    st.record info = [("name", .string m.name), ("values", .record values), ("old", m.old),
      ("new", m.new)]

theorem Store.TellsOf.withRecords {st : Store} {m : Mutation} {env : Environment}
    {names : List String} {info : Ref} (h : st.TellsOf m env names info)
    (added : Array (OrderedMap Value)) : (st.withRecords added).TellsOf m env names info := by
  have hsize : st.records.size ≤ (st.withRecords added).records.size := by
    simp [Store.withRecords]
  obtain ⟨values, hvalues, hwatched, htold⟩ := h.told
  refine ⟨Nat.lt_of_lt_of_le h.stored hsize, values, Nat.lt_of_lt_of_le hvalues hsize, ?_, ?_⟩
  · rw [record_withRecords hvalues, hwatched]
  · rw [record_withRecords h.stored, htold]

/-- The task that calls a handler of one variable with its values before and after a change, and
with its name. -/
def Mutation.task (m : Mutation) (handler : Value) : Notification where
  name := m.name
  handler := handler
  args := [m.old, m.new, .string m.name]

/-- A task that calls a handler of several variables with a record that tells of a change. -/
structure Registration.Announces (r : Registration) (m : Mutation) (env : Environment) (st : Store)
    (task : Notification) : Prop where
  name : task.name = m.name
  handler : task.handler = r.handler
  args : ∃ info, task.args = [.record info] ∧ st.TellsOf m env r.names info

/-- A change of a variable and the tasks that announce it. -/
structure Change where
  /-- The variable with its values and observers. -/
  mutation : Mutation
  /-- The tasks, in the order in which they are queued. -/
  tasks : List Notification

/-- What a change does to the state. The name refers to a variable that is no constant and had
another value; it gets the new one. Each of its observers gets one task in the order of
registration, first those of this variable alone and then those of several variables. The tasks go
to the end of the queue, and records are made for the latter. -/
structure Change.Happens (c : Change) (s s' : State) : Prop where
  assigned : ∃ i b, s.env.position? c.mutation.name = some i ∧
    OrderedMap.find? (s.env.scope i).bindings c.mutation.name = some b ∧
    b.mode ≠ .immutable ∧ b.value.sameValue c.mutation.new = false ∧
    c.mutation.old = b.value ∧ c.mutation.observers = b.observers ∧
    c.mutation.registrations = b.registrations ∧
    s'.env = s.env.modifyScope i fun bindings =>
      OrderedMap.adjust bindings c.mutation.name fun b => { b with value := c.mutation.new }
  announced : ∃ announcements,
    c.tasks = c.mutation.observers.map c.mutation.task ++ announcements ∧
    List.Forall₂ (fun r task => r.Announces c.mutation s'.env s'.store task)
      c.mutation.registrations announcements
  records : ∃ added, s'.store = s.store.withRecords added
  queue : s'.queue = s.queue.scheduleAll c.tasks
  rest : s'.events = s.events ∧ s'.exports = s.exports ∧ s'.interrupted = s.interrupted

namespace Rule

/-- One announcement makes two records and queues one task. -/
theorem announce_eq (m : Mutation) (s : State) (r : Registration) :
    announce m s r = { s with
      store := s.store.withRecords #[watchedValues s.env r.names,
        [("name", .string m.name), ("values", .record s.store.records.size), ("old", m.old),
          ("new", m.new)]]
      queue := s.queue.schedule
        { name := m.name, handler := r.handler,
          args := [.record (s.store.records.size + 1)] } } := by
  have hpush : ∀ (records : Array (OrderedMap Value)) a b,
      (records.push a).push b = records ++ #[a, b] := by
    intro records a b
    exact Array.ext' (by simp)
  simp [announce, changeInfo, enqueue, Store.newRecord, Store.withRecords, hpush]

/-- The record of an announcement tells of the change. -/
theorem tellsOf_announce (m : Mutation) (s : State) (r : Registration) :
    (announce m s r).store.TellsOf m s.env r.names (s.store.records.size + 1) := by
  rw [announce_eq]
  refine ⟨by simp [Store.withRecords], s.store.records.size, by simp [Store.withRecords], ?_, ?_⟩
  · simp [Store.withRecords, Store.record]
  · simp [Store.withRecords, Store.record]

/-- All announcements of a change, by induction on the handlers that are left. -/
theorem foldl_announce (m : Mutation) (rs : List Registration) (s : State) :
    ∃ added tasks, rs.foldl (announce m) s =
        { s with store := s.store.withRecords added, queue := s.queue.scheduleAll tasks } ∧
      List.Forall₂ (fun r task => r.Announces m s.env (s.store.withRecords added) task) rs
        tasks := by
  induction rs generalizing s with
  | nil => exact ⟨#[], [], by simp [Store.withRecords, TaskQueue.scheduleAll], .nil⟩
  | cons r rs ih =>
    obtain ⟨added, tasks, hstate, htasks⟩ := ih (announce m s r)
    have htold := (tellsOf_announce m s r).withRecords added
    rw [announce_eq] at hstate htasks htold
    dsimp only at hstate htasks htold
    rw [Store.withRecords_withRecords] at hstate htasks htold
    refine ⟨_, { name := m.name, handler := r.handler, args := _ } :: tasks, ?_,
      .cons ⟨rfl, rfl, _, rfl, htold⟩ htasks⟩
    rw [List.foldl_cons, announce_eq, hstate]
    rfl

/-- The handlers of one variable are told in the order of registration. -/
theorem foldl_enqueue (m : Mutation) (handlers : List Value) (s : State) :
    handlers.foldl (fun s handler =>
        enqueue { name := m.name, handler, args := changeArgs m } s) s =
      { s with queue := s.queue.scheduleAll (handlers.map m.task) } := by
  induction handlers generalizing s with
  | nil => rfl
  | cons handler handlers ih =>
    rw [List.foldl_cons, ih]
    rfl

/-- First the handlers of the variable alone are told, then those of several variables. -/
theorem notify_eq (m : Mutation) (s : State) :
    ∃ added announcements, notify m s = { s with
        store := s.store.withRecords added
        queue := s.queue.scheduleAll (m.observers.map m.task ++ announcements) } ∧
      List.Forall₂ (fun r task => r.Announces m s.env (s.store.withRecords added) task)
        m.registrations announcements := by
  obtain ⟨added, announcements, hstate, hannounced⟩ := foldl_announce m m.registrations
    { s with queue := s.queue.scheduleAll (m.observers.map m.task) }
  refine ⟨added, announcements, ?_, hannounced⟩
  unfold notify
  rw [foldl_enqueue, TaskQueue.scheduleAll_append]
  exact hstate

end Rule

/-! ## Assignments -/

/-- What assigning a value to a name comes to. It is refused if the name refers to no variable or to
a constant, it has no effect if the variable has that value already, and otherwise it is a change of
the variable. -/
inductive Assignment (name : String) (v : Value) (s : State) :
    Outcome State Failure Unit → Prop where
  | refused {failure : Failure}
    (h : ∀ i b, s.env.position? name = some i →
      OrderedMap.find? (s.env.scope i).bindings name = some b → b.mode = .immutable) :
    Assignment name v s (.error failure s)
  | same {i : Nat} {b : Binding} (hi : s.env.position? name = some i)
    (hb : OrderedMap.find? (s.env.scope i).bindings name = some b) (hmode : b.mode ≠ .immutable)
    (h : b.value.sameValue v = true) : Assignment name v s (.ok () s)
  | changed {c : Change} {s' : State} (hname : c.mutation.name = name) (hnew : c.mutation.new = v)
    (h : c.Happens s s') : Assignment name v s (.ok () s')

/-- An assignment in an environment is refused, has no effect, or reports the change it makes. -/
theorem Environment.assign_cases (env : Environment) (name : String) (v : Value) :
    (∃ e, env.assign name v = .error e ∧ ∀ i b, env.position? name = some i →
      OrderedMap.find? (env.scope i).bindings name = some b → b.mode = .immutable) ∨
    ∃ i b, env.position? name = some i ∧ OrderedMap.find? (env.scope i).bindings name = some b ∧
      b.mode ≠ .immutable ∧
      (b.value.sameValue v = true ∧ env.assign name v = .ok (env, none) ∨
        b.value.sameValue v = false ∧ env.assign name v = .ok
          (env.modifyScope i fun bindings =>
            OrderedMap.adjust bindings name fun b => { b with value := v },
            some ⟨name, b.value, v, b.observers, b.registrations⟩)) := by
  unfold assign
  cases hi : env.position? name with
  | none => exact Or.inl ⟨.undeclared name, rfl, fun i b h => by cases h⟩
  | some i =>
    cases hb : OrderedMap.find? (env.scope i).bindings name with
    | none =>
      refine Or.inl ⟨.undeclared name, by simp only [hb], fun j b hj hfound => ?_⟩
      obtain rfl : i = j := Option.some.inj hj
      rw [hb] at hfound
      cases hfound
    | some b =>
      by_cases hmode : b.mode = .immutable
      · refine Or.inl ⟨.immutable name, by simp [hb, Mode.isMutable, hmode],
          fun j b' hj hfound => ?_⟩
        obtain rfl : i = j := Option.some.inj hj
        obtain rfl : b = b' := Option.some.inj (hb.symm.trans hfound)
        exact hmode
      · refine Or.inr ⟨i, b, rfl, hb, hmode, ?_⟩
        have hmutable : b.mode.isMutable = true := by simpa [Mode.isMutable] using hmode
        cases hsame : b.value.sameValue v with
        | true => exact Or.inl ⟨rfl, by simp [hb, hmutable, hsame]⟩
        | false => exact Or.inr ⟨rfl, by simp [hb, hmutable, hsame]⟩

/-- An assignment to a variable is announced if and only if it changes the variable. -/
theorem Rule.assignment (name : String) (v : Value) (s : State) :
    Assignment name v s (assignVariable name v s) := by
  unfold assignVariable
  rcases s.env.assign_cases name v with ⟨e, hassign, h⟩ | ⟨i, b, hi, hb, hmode, hassign⟩
  · rw [hassign]
    exact .refused h
  · rcases hassign with ⟨hsame, hassign⟩ | ⟨hchanged, hassign⟩
    · rw [hassign]
      exact .same hi hb hmode hsame
    · rw [hassign]
      obtain ⟨added, announcements, hnotify, hannounced⟩ := notify_eq
        ⟨name, b.value, v, b.observers, b.registrations⟩ { s with
          env := s.env.modifyScope i fun bindings =>
            OrderedMap.adjust bindings name fun b => { b with value := v } }
      dsimp only
      rw [hnotify]
      refine .changed (c := ⟨⟨name, b.value, v, b.observers, b.registrations⟩,
        b.observers.map (Mutation.task ⟨name, b.value, v, b.observers, b.registrations⟩) ++
          announcements⟩) rfl rfl ?_
      exact
        { assigned := ⟨i, b, hi, hb, hmode, hchanged, rfl, rfl, rfl, rfl⟩
          announced := ⟨announcements, rfl, hannounced⟩
          records := ⟨added, rfl⟩
          queue := rfl
          rest := ⟨rfl, rfl, rfl⟩ }

/-! ## Runs -/

/-- Elementary steps of evaluation that lead from a state to another one, and the changes of
variables on the way, oldest first. A change is the one step that touches the queue. -/
inductive Run : Reach → State → List Change → State → Prop where
  /-- The variables stay: the step works on the store, the log or the exports, or it is refused. -/
  | still {r : Reach} {s s' : State} (henv : s'.env = s.env) (hqueue : s'.queue = s.queue) :
    Run r s [] s'
  | change {c : Change} {s s' : State} (h : c.Happens s s') : Run .expression s [c] s'
  | register {s : State} {env : Environment} {targets : List String} {handler : Value}
    (h : Rule.register targets handler s.env = .ok env) : Run .expression s [] { s with env }
  | declare {s : State} {env : Environment} {mode : Mode} {name : String} {v : Value}
    {span : Option Span} (h : s.env.declare mode name v span = .ok env) :
    Run .statement s [] { s with env }
  /-- The owner of a scope sets it up. -/
  | define (s : State) (name : String) (v : Value) (mode : Mode) :
    Run .owner s [] { s with env := s.env.define name v mode }
  /-- The owner of a scope gives an item to the variable of a loop. -/
  | setLocal (s : State) (name : String) (v : Value) :
    Run .owner s [] { s with env := s.env.setLocal name v }
  | block {s s' : State} {changes : List Change}
    (h : Run .owner { s with env := s.env.pushBlock } changes s') :
    Run .statement s changes { s' with env := s'.env.pop }
  | call {s s' : State} {env : Environment} {changes : List Change} {f : Function} {self : Value}
    (hcall : s.env.beginCall f self = .ok env) (h : Run .owner { s with env } changes s') :
    Run .call s changes { s' with env := s'.env.endCall }
  | ofCall {s s' : State} {changes : List Change} (h : Run .call s changes s') :
    Run .expression s changes s'
  | ofExpression {s s' : State} {changes : List Change} (h : Run .expression s changes s') :
    Run .statement s changes s'
  | ofStatement {s s' : State} {changes : List Change} (h : Run .statement s changes s') :
    Run .owner s changes s'
  | trans {r : Reach} {s s₁ s₂ : State} {changes changes' : List Change}
    (h : Run r s changes s₁) (h' : Run r s₁ changes' s₂) : Run r s (changes ++ changes') s₂

namespace Run

variable {r : Reach} {s s' : State}

/-- A run queues the tasks of its changes and nothing else. -/
theorem queue {changes : List Change} (h : Run r s changes s') :
    s'.queue = s.queue.scheduleAll (changes.flatMap Change.tasks) := by
  induction h with
  | still _ hqueue => exact hqueue
  | @change c s s' h =>
    rw [h.queue, List.flatMap_singleton]
  | register | declare | define | setLocal => rfl
  | block _ ih => exact ih
  | call _ _ ih => exact ih
  | ofCall _ ih => exact ih
  | ofExpression _ ih => exact ih
  | ofStatement _ ih => exact ih
  | trans _ _ ih ih' => rw [ih', ih, List.flatMap_append, TaskQueue.scheduleAll_append]

end Run

end ReactiveScript
