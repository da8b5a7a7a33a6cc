import ReactiveScript.Proofs.Congruence.Program

/-!
# What evaluation only writes

Evaluation appends to the log and to the queue of notifications and reads neither; the queue is read
when notifications are delivered. Runs that start in the same state but for the log and the queue
therefore come to the same but for these, whatever the relation between the two logs and between the
two queues, as long as it is kept when both runs append the same. If only one of the runs traces,
the relation between the logs also has to be kept when this run logs an event of a trace. If
notifications are delivered, the next one has to be the same in both queues.
-/

namespace ReactiveScript

/-- A relation between logs that is kept by what two runs log. -/
structure LogRelation (trace trace' : Bool) (L : Array Event → Array Event → Prop) : Prop where
  /-- Both runs log an event. -/
  push {log log' : Array Event} (event : Event) : L log log' → L (log.push event) (log'.push event)
  /-- The runs that trace log an event of a trace. -/
  pushIf {log log' : Array Event} (event : Event) (hevent : event.ofTrace) : L log log' →
    L (if trace then log.push event else log) (if trace' then log'.push event else log')

/-- Equality is a relation between logs of runs that trace both or do not trace both. -/
theorem LogRelation.eq (trace : Bool) : LogRelation trace trace Eq where
  push _ h := by rw [h]
  pushIf _ _ h := by rw [h]

/-- A relation between queues, and one between logs, that are kept by what two runs append. -/
structure OutputRelation (trace trace' : Bool)
    (Q : TaskQueue Notification → TaskQueue Notification → Prop)
    (L : Array Event → Array Event → Prop) : Prop extends LogRelation trace trace' L where
  /-- Both runs queue a notification. -/
  schedule {queue queue' : TaskQueue Notification} (task : Notification) :
    Q queue queue' → Q (queue.schedule task) (queue'.schedule task)

/-- Related queues hold the same notification next, and what follows is related. -/
def Delivering (Q : TaskQueue Notification → TaskQueue Notification → Prop) : Prop :=
  ∀ queue queue', Q queue queue' →
    Option.Rel (fun next next' => next.1 = next'.1 ∧ Q next.2 next'.2) queue.next? queue'.next?

section SameBut

variable (Q : TaskQueue Notification → TaskQueue Notification → Prop)
  (L : Array Event → Array Event → Prop)

/-- The same state but for related queues and logs. -/
inductive State.SameBut (s : State) : State → Prop where
  | intro {queue : TaskQueue Notification} {events : Array Event} (hqueue : Q s.queue queue)
    (hlog : L s.events events) : SameBut s { s with queue, events }

/-- The same outcome but for related results, queues and logs. -/
inductive Outcome.SameBut {ε α : Type} (V : α → α → Prop) :
    Outcome State ε α → Outcome State ε α → Prop where
  | ok {a a' : α} {s s' : State} (hv : V a a') (hs : s.SameBut Q L s') :
    SameBut V (.ok a s) (.ok a' s')
  | error {e : ε} {s s' : State} (hs : s.SameBut Q L s') : SameBut V (.error e s) (.error e s')
  | exhausted : SameBut V .exhausted .exhausted

/-- Evaluations that come to the same but for queues and logs. -/
def Eval.SameBut {α : Type} (m m' : Eval α) : Prop :=
  ∀ s s' : State, s.SameBut Q L s' → (m s).SameBut Q L Eq (m' s')

end SameBut

variable {trace trace' : Bool} {Q : TaskQueue Notification → TaskQueue Notification → Prop}
  {L : Array Event → Array Event → Prop}

/-! ## Notifications -/

namespace State.SameBut

variable {s s' : State}

theorem withEnv (g : Environment → Environment) (h : s.SameBut Q L s') :
    { s with env := g s.env }.SameBut Q L { s' with env := g s'.env } := by
  cases h with
  | intro hqueue hlog => exact .intro hqueue hlog

theorem reset (h : s.SameBut Q L s') : s.reset.SameBut Q L s'.reset := by
  cases h with
  | intro hqueue hlog => exact .intro hqueue hlog

theorem enqueue (hK : OutputRelation trace trace' Q L) (task : Notification)
    (h : s.SameBut Q L s') : (Rule.enqueue task s).SameBut Q L (Rule.enqueue task s') := by
  cases h with
  | intro hqueue hlog => exact .intro (hK.schedule task hqueue) hlog

theorem announce (hK : OutputRelation trace trace' Q L) (m : Mutation) (r : Registration)
    (h : s.SameBut Q L s') : (Rule.announce m s r).SameBut Q L (Rule.announce m s' r) := by
  cases h with
  | intro hqueue hlog => exact .intro (hK.schedule _ hqueue) hlog

/-- Notifications are made without looking at the log or the queue. -/
theorem notify (hK : OutputRelation trace trace' Q L) (m : Mutation) (h : s.SameBut Q L s') :
    (Rule.notify m s).SameBut Q L (Rule.notify m s') := by
  have hobservers := List.foldl_rel (l := m.observers) h fun handler _ _ _ h =>
    h.enqueue hK { name := m.name, handler, args := Rule.changeArgs m }
  exact List.foldl_rel hobservers fun r _ _ _ h => h.announce hK m r

end State.SameBut

namespace Outcome.SameBut

variable {ε α : Type} {V : α → α → Prop} {o o' : Outcome State ε α}

theorem mapError {f : ε → ε} (h : o.SameBut Q L V o') :
    (o.mapError f).SameBut Q L V (o'.mapError f) := by
  cases h with
  | ok hv hs => exact .ok hv hs
  | error hs => exact .error hs
  | exhausted => exact .exhausted

/-- Both runs change their environments at the end. -/
theorem mapEnv (g : Environment → Environment) (h : o.SameBut Q L V o') :
    (o.mapState fun s => { s with env := g s.env }).SameBut Q L V
      (o'.mapState fun s => { s with env := g s.env }) := by
  cases h with
  | ok hv hs => exact .ok hv (hs.withEnv g)
  | error hs => exact .error (hs.withEnv g)
  | exhausted => exact .exhausted

end Outcome.SameBut

/-! ## Evaluations -/

namespace Eval.SameBut

variable {α β : Type} {m m' : Eval α} {f f' : α → Eval β}

theorem bind (hm : m.SameBut Q L m') (hf : ∀ a, (f a).SameBut Q L (f' a)) :
    (m >>= f).SameBut Q L (m' >>= f') := by
  intro s s' h
  have hrun := hm s s' h
  rw [Eval.bind_apply, Eval.bind_apply]
  generalize m s = o at hrun
  generalize m' s' = o' at hrun
  cases hrun with
  | ok hv hs =>
    subst hv
    exact hf _ _ _ hs
  | error hs => exact .error hs
  | exhausted => exact .exhausted

theorem attempt (hm : m.SameBut Q L m') : m.attempt.SameBut Q L m'.attempt := by
  intro s s' h
  have hrun := hm s s' h
  unfold Eval.attempt
  generalize m s = o at hrun
  generalize m' s' = o' at hrun
  cases hrun with
  | ok hv hs => exact .ok (congrArg Except.ok hv) hs
  | error hs => exact .ok rfl hs
  | exhausted => exact .exhausted

theorem checkInterrupt : Eval.SameBut Q L Eval.checkInterrupt Eval.checkInterrupt := by
  rintro s _ ⟨hqueue, hlog⟩
  unfold Eval.checkInterrupt
  dsimp only
  split
  · exact .error (.intro hqueue hlog)
  · exact .ok rfl (.intro hqueue hlog)

theorem tryWrite (plan : Store → Except Cause Store.Write) :
    Eval.SameBut Q L (Eval.tryWrite plan) (Eval.tryWrite plan) := by
  rintro s _ ⟨hqueue, hlog⟩
  unfold Eval.tryWrite
  dsimp only
  split
  · rename_i write _
    exact .ok rfl (.intro (s := { s with store := s.store.write write }) hqueue hlog)
  · exact .error (.intro hqueue hlog)

theorem hostCall (name : String) (f : Store → Reply) :
    Eval.SameBut Q L (Eval.hostCall name f) (Eval.hostCall name f) := by
  rintro s _ ⟨hqueue, hlog⟩
  have hreplied := State.SameBut.intro (s := { s with
    store := (f s.store).store
    interrupted := s.interrupted || (f s.store).interrupts }) hqueue hlog
  unfold Eval.hostCall
  dsimp only
  split
  · exact .ok rfl hreplied
  · exact .error hreplied

theorem emit (hL : LogRelation trace trace' L) (event : Event) :
    Eval.SameBut Q L (Eval.emit event) (Eval.emit event) := by
  rintro s _ ⟨hqueue, hlog⟩
  exact .ok rfl (.intro (s := { s with events := s.events.push event }) hqueue (hL.push event hlog))

theorem emitIf (hL : LogRelation trace trace' L) (event : Nat → Event)
    (hevent : ∀ depth, (event depth).ofTrace) :
    Eval.SameBut Q L (fun s => Eval.emitIf trace (event s.env.callDepth) s)
      (fun s => Eval.emitIf trace' (event s.env.callDepth) s) := by
  rintro s _ ⟨hqueue, hlog⟩
  have hcase : ∀ (t : Bool) (event : Event) (s : State), Eval.emitIf t event s =
      .ok () { s with events := if t then s.events.push event else s.events } := by
    intro t event s
    cases t <;> rfl
  dsimp only
  rw [hcase, hcase]
  exact .ok rfl (.intro (s := { s with
    events := if trace then s.events.push (event s.env.callDepth) else s.events }) hqueue
    (hL.pushIf _ (hevent _) hlog))

theorem modifyEnv (f : Environment → Environment) :
    Eval.SameBut Q L (Eval.modifyEnv f) (Eval.modifyEnv f) := fun _ _ h => .ok rfl (h.withEnv f)

theorem tryEnv (f : Environment → Except BindingError Environment) :
    Eval.SameBut Q L (Eval.tryEnv f) (Eval.tryEnv f) := by
  rintro s _ ⟨hqueue, hlog⟩
  unfold Eval.tryEnv
  dsimp only
  split
  · rename_i env _
    exact .ok rfl (.intro (s := { s with env }) hqueue hlog)
  · exact .error (.intro hqueue hlog)

theorem assignVariable (hK : OutputRelation trace trace' Q L) (name : String) (v : Value) :
    Eval.SameBut Q L (Rule.assignVariable name v) (Rule.assignVariable name v) := by
  rintro s _ ⟨hqueue, hlog⟩
  unfold Rule.assignVariable
  dsimp only
  split
  · exact .error (.intro hqueue hlog)
  · rename_i env _
    exact .ok rfl (.intro (s := { s with env }) hqueue hlog)
  · rename_i env m _
    exact .ok rfl (State.SameBut.notify hK m (.intro (s := { s with env }) hqueue hlog))

theorem inBlock (hm : m.SameBut Q L m') : (Eval.inBlock m).SameBut Q L (Eval.inBlock m') :=
  fun _ _ h => (hm _ _ (h.withEnv (·.pushBlock))).mapEnv (·.pop)

theorem inCall (f : Function) (self : Value) (hm : m.SameBut Q L m') :
    (Eval.inCall f self m).SameBut Q L (Eval.inCall f self m') := by
  rintro s _ ⟨hqueue, hlog⟩
  unfold Eval.inCall
  dsimp only
  split
  · exact .error (.intro hqueue hlog)
  · rename_i env _
    exact (hm _ _ (.intro (s := { s with env }) hqueue hlog)).mapEnv (·.endCall)

theorem takeNotification (hQ : Delivering Q) :
    Eval.SameBut Q L Eval.takeNotification Eval.takeNotification := by
  rintro s _ ⟨hqueue, hlog⟩
  have hnext := hQ _ _ hqueue
  unfold Eval.takeNotification Interpreter.takeNotification
  dsimp only
  generalize s.queue.next? = next at hnext
  generalize TaskQueue.next? _ = next' at hnext
  cases hnext with
  | none => exact .ok rfl (.intro hqueue hlog)
  | @some taken taken' h =>
    exact .ok (congrArg some h.1) (.intro (s := { s with queue := taken.2 }) h.2 hlog)

end Eval.SameBut

namespace OutputRelation

/-- All evaluations come to the same but for queues and logs. -/
theorem congruence (hK : OutputRelation trace trace' Q L) :
    Congruence trace trace' fun _ _ m m' => Eval.SameBut Q L m m' where
  ofCall hm := hm
  ofExpression hm := hm
  ofStatement hm := hm
  stop _ _ _ := .exhausted
  pure _ _ _ h := .ok rfl h
  bind := .bind
  fail _ _ _ h := .error h
  mapError _ hm s s' h := (hm s s' h).mapError
  attempt := .attempt
  checkInterrupt := .checkInterrupt
  store := by
    rintro _ s _ ⟨hqueue, hlog⟩
    exact .ok rfl (.intro hqueue hlog)
  tryWrite := .tryWrite
  allocate f _ := by
    rintro s _ ⟨hqueue, hlog⟩
    exact .ok rfl (.intro (s := { s with store := (f s.store).2 }) hqueue hlog)
  hostCall name f _ := .hostCall name f
  emit := .emit hK.toLogRelation
  emitIf := .emitIf hK.toLogRelation
  exports _ names := by
    rintro s _ ⟨hqueue, hlog⟩
    exact .ok rfl (.intro (s := { s with exports := s.exports ++ names }) hqueue hlog)
  get _ := by
    rintro s _ ⟨hqueue, hlog⟩
    exact .ok rfl (.intro hqueue hlog)
  capture := by
    rintro s _ ⟨hqueue, hlog⟩
    exact .ok rfl (.intro hqueue hlog)
  assignVariable := .assignVariable hK
  register _ _ := .tryEnv _
  declare _ _ _ _ := .tryEnv _
  define _ _ _ := .modifyEnv _
  setLocal _ _ := .modifyEnv _
  inBlock := .inBlock
  inCall := .inCall

theorem interrupt : Eval.SameBut Q L (fun s => .ok () { s with interrupted := true })
    (fun s => .ok () { s with interrupted := true }) := by
  rintro s _ ⟨hqueue, hlog⟩
  exact .ok rfl (.intro (s := { s with interrupted := true }) hqueue hlog)

/-- So do deliveries, if the next notification is always the same. -/
theorem sessionCongruence (hK : OutputRelation trace trace' Q L) (hQ : Delivering Q) :
    SessionCongruence trace trace' fun _ _ m m' => Eval.SameBut Q L m m' where
  toCongruence := hK.congruence
  takeNotification := .takeNotification hQ
  interrupt := interrupt

/-! ## Sessions -/

/-- All requests are answered alike, unless notifications are to be delivered that differ. -/
theorem perform {ctx : Context} (hK : OutputRelation ctx.trace trace Q L) (fuel : Nat)
    (request : Request) (hQ : request.delivers = true → Delivering Q) :
    Eval.SameBut Q L (request.perform (Evaluator.level ctx fuel) fuel)
      (request.perform (Evaluator.level (ctx.tracing trace) fuel) fuel) := by
  have hlevel := hK.congruence.level fuel
  by_cases hreset : request = .reset
  · subst hreset
    exact fun s s' h => .ok rfl h.reset
  · cases hdelivers : request.delivers with
    | true => exact (hK.sessionCongruence (hQ hdelivers)).perform hlevel fuel hreset
    | false => exact hK.congruence.perform hlevel interrupt fuel hdelivers hreset

end OutputRelation

/-- A request that is answered with or without tracing. -/
def Visit.tracing (visit : Visit) (trace : Bool) : Visit :=
  { visit with ctx := visit.ctx.tracing trace }

/-- Sessions of the same requests are alike, request by request. The one traces as the host says,
and the other one as it is told for each request. -/
theorem State.SameBut.serve? (tracing : Visit → Bool) {visits : List Visit}
    (hK : ∀ visit ∈ visits, OutputRelation visit.ctx.trace (tracing visit) Q L)
    (hQ : ∀ visit ∈ visits, visit.request.delivers = true → Delivering Q) {s s' : State}
    (h : s.SameBut Q L s') :
    Option.Rel (State.SameBut Q L) (ReactiveScript.serve? Evaluator.level visits s)
      (ReactiveScript.serve? Evaluator.level (visits.map fun visit => visit.tracing (tracing visit))
        s') := by
  induction visits generalizing s s' with
  | nil => exact .some h
  | cons visit visits ih =>
    rw [List.forall_mem_cons] at hK hQ
    have hvisit := hK.1.perform visit.fuel visit.request hQ.1 s s' h
    rw [List.map_cons, ReactiveScript.serve?, ReactiveScript.serve?]
    unfold Visit.after? Visit.tracing
    dsimp only
    generalize visit.request.perform (Evaluator.level visit.ctx visit.fuel) visit.fuel s = o
      at hvisit
    generalize visit.request.perform _ visit.fuel s' = o' at hvisit
    cases hvisit with
    | ok _ hs => exact ih hK.2 hQ.2 hs
    | error hs => exact ih hK.2 hQ.2 hs
    | exhausted => exact .none

end ReactiveScript
