import ReactiveScript.Proofs.Congruence.Basic
import ReactiveScript.Proofs.Dispatch
import ReactiveScript.Proofs.SoundValues

/-!
# Agreement of evaluations

The laws about signals and interruptions depend on the state from which an evaluation starts and on
the values it works with, so they are no congruences. They are proved together, for two evaluators
at once: evaluations of the same phrase *agree* from a state if both do the same, except that what
follows an interruption of the first one may differ, and if what the first one does is in order.

In order is an outcome (`Meets`) that leaves a sound state, keeps all that was sound, and is a
result of the expected kind or a `Legitimate` failure: an interruption that was asked for, or a
failure that is no stray signal, except where functions may send one.
-/

namespace ReactiveScript

/-! ## Failures -/

/-- A cause that carries no value and is no stray signal. -/
def Cause.isPlain : Cause → Bool
  | .thrown .. | .strayBreak | .strayContinue | .strayReturn => false
  | _ => true

/-- Whether a cause can come up in a store where functions keep to the signals `bodies`. -/
def Cause.Legitimate (bodies : Signals) (st : Store) : Cause → Prop
  | .thrown v _ => st.Sound bodies v
  | .strayBreak => bodies.breaks = true
  | .strayContinue => bodies.continues = true
  | .strayReturn => False
  | _ => True

/-- Whether an evaluation can leave a state with a failure. -/
def Failure.Legitimate (bodies : Signals) (s : State) : Failure → Prop
  | .raised cause _ => cause.Legitimate bodies s.store
  | .interrupted => s.interrupted = true

theorem Cause.legitimate_of_isPlain {cause : Cause} (h : cause.isPlain = true) (bodies : Signals)
    (st : Store) : cause.Legitimate bodies st := by
  cases cause <;> trivial

/-- An interruption takes no position. -/
theorem Failure.locate_interrupted (span : Span) : interrupted.locate span = interrupted := by
  unfold locate
  split <;> rfl

namespace Failure.Legitimate

variable {bodies : Signals} {s s' : State} {failure : Failure}

theorem withSpan (h : failure.Legitimate bodies s) (span : Span) :
    (failure.withSpan span).Legitimate bodies s := by
  cases failure with
  | raised cause span => cases span <;> exact h
  | interrupted => exact h

theorem locate (h : failure.Legitimate bodies s) (span : Span) :
    (failure.locate span).Legitimate bodies s := by
  unfold Failure.locate
  split
  · exact h.withSpan span
  · exact h

theorem grows (h : failure.Legitimate bodies s) (hs : s.Grows bodies s') :
    failure.Legitimate bodies s' := by
  cases failure with
  | raised cause span =>
    cases cause <;> first | exact hs.sound h | exact h
  | interrupted => exact hs.flag h

/-- What a handler is given is sound. -/
theorem thrownValue (h : failure.Legitimate bodies s) :
    s.store.Sound bodies failure.thrownValue := by
  cases failure with
  | raised cause span => cases cause <;> first | exact h | exact Store.sound_string _
  | interrupted => exact Store.sound_string _

end Failure.Legitimate

/-- A result with a property, or a plain cause. -/
def OrPlain {α : Type} (P : α → Prop) : Except Cause α → Prop
  | .ok a => P a
  | .error cause => cause.isPlain = true

/-! ## Notifications -/

/-- A change with sound values, which is announced to sound handlers. -/
structure Mutation.Sound (bodies : Signals) (st : Store) (m : Mutation) : Prop where
  old : st.Sound bodies m.old
  new : st.Sound bodies m.new
  observers : ∀ handler ∈ m.observers, st.Sound bodies handler
  registrations : ∀ r ∈ m.registrations, st.Sound bodies r.handler

theorem Mutation.Sound.grows {bodies : Signals} {st st' : Store} {m : Mutation}
    (h : m.Sound bodies st) (hst : st.Grows bodies st') : m.Sound bodies st' where
  old := hst _ h.old
  new := hst _ h.new
  observers handler hmem := hst _ (h.observers handler hmem)
  registrations r hmem := hst _ (h.registrations r hmem)

namespace State

variable {ctx : Context} {bodies : Signals} {s : State} {m : Mutation}

theorem Sound.watchedValues (h : s.Sound ctx bodies) (names : List String) :
    ∀ entry ∈ Rule.watchedValues s.env names, s.store.Sound bodies entry.2 := by
  refine OrderedMap.forall_ofEntries fun entry hentry => ?_
  obtain ⟨name, -, rfl⟩ := List.mem_map.1 hentry
  dsimp only
  cases hv : s.env.get? name with
  | none => exact Store.sound_null
  | some v => exact h.env.get? hv

/-- A handler of several variables is told by a record that is made for it. -/
theorem Sound.announce (h : s.Sound ctx bodies) (hm : m.Sound bodies s.store) {r : Registration}
    (hr : s.store.Sound bodies r.handler) :
    (Rule.announce m s r).Sound ctx bodies ∧ s.Grows bodies (Rule.announce m s r) := by
  have hwatched := h.watchedValues r.names
  have hvalues := Store.grows_newRecord hwatched
  have hentries : ∀ entry ∈ ([("name", .string m.name),
      ("values", (s.store.newRecord (Rule.watchedValues s.env r.names)).1), ("old", m.old),
      ("new", m.new)] : OrderedMap Value),
      (s.store.newRecord (Rule.watchedValues s.env r.names)).2.Sound bodies entry.2 := by
    simp only [List.forall_mem_cons]
    exact ⟨Store.sound_string _, Store.sound_newRecord hwatched, hvalues _ hm.old,
      hvalues _ hm.new, fun _ hnil => by cases hnil⟩
  have hgrows := hvalues.trans (Store.grows_newRecord hentries)
  refine ⟨(h.withStore hgrows).enqueue ⟨hgrows _ hr, fun v hv => ?_⟩, id, hgrows⟩
  rw [List.mem_singleton] at hv
  rw [hv]
  exact Store.sound_newRecord hentries

theorem Sound.foldl_announce (rs : List Registration) (h : s.Sound ctx bodies)
    (hm : m.Sound bodies s.store) (hrs : ∀ r ∈ rs, s.store.Sound bodies r.handler) :
    (rs.foldl (Rule.announce m) s).Sound ctx bodies ∧
      s.Grows bodies (rs.foldl (Rule.announce m) s) := by
  induction rs generalizing s with
  | nil => exact ⟨h, .refl s⟩
  | cons r rs ih =>
    rw [List.forall_mem_cons] at hrs
    obtain ⟨hsound, hgrows⟩ := h.announce hm hrs.1
    obtain ⟨hsound', hgrows'⟩ := ih hsound (hm.grows hgrows.store) fun r hr =>
      hgrows.sound (hrs.2 r hr)
    exact ⟨hsound', hgrows.trans hgrows'⟩

theorem Sound.foldl_enqueue (handlers : List Value) (h : s.Sound ctx bodies)
    (hm : m.Sound bodies s.store) (hhandlers : ∀ v ∈ handlers, s.store.Sound bodies v) :
    State.Sound ctx bodies
      { s with queue := s.queue.scheduleAll (handlers.map m.task) } := by
  induction handlers generalizing s with
  | nil => exact h
  | cons handler handlers ih =>
    rw [List.forall_mem_cons] at hhandlers
    refine ih (s := Rule.enqueue (m.task handler) s) (h.enqueue ⟨hhandlers.1, ?_⟩) hm hhandlers.2
    simp only [Mutation.task, List.forall_mem_cons]
    exact ⟨hm.old, hm.new, Store.sound_string _, fun _ hnil => by cases hnil⟩

theorem Sound.notify (h : s.Sound ctx bodies) (hm : m.Sound bodies s.store) :
    (Rule.notify m s).Sound ctx bodies ∧ s.Grows bodies (Rule.notify m s) := by
  have hfirst := h.foldl_enqueue m.observers hm hm.observers
  unfold Rule.notify
  rw [Rule.foldl_enqueue]
  obtain ⟨hsound, hgrows⟩ := hfirst.foldl_announce m.registrations hm hm.registrations
  exact ⟨hsound, hgrows.flag, hgrows.store⟩

end State

/-! ## Interrupted evaluations -/

/-- A state that results from another one by leaving scopes, with nothing else done on the way. -/
inductive State.Unwinds (t : State) : State → Prop where
  | refl : Unwinds t t
  | block {s : State} (h : Unwinds t s) : Unwinds t { s with env := s.env.pop }
  | call {s : State} (h : Unwinds t s) : Unwinds t { s with env := s.env.endCall }
  /-- A block is entered and left at once. -/
  | emptyBlock {s : State} (h : Unwinds t s) : Unwinds t { s with env := s.env.pushBlock.pop }

theorem State.Unwinds.interrupted {t s : State} (h : t.Unwinds s) :
    s.interrupted = t.interrupted := by
  induction h with
  | refl => rfl
  | block _ ih | call _ ih | emptyBlock _ ih => exact ih

/-- An evaluation that was interrupted and left a state with a property. -/
def Outcome.InterruptedIn {α : Type} (P : State → Prop) (o : Outcome State Failure α) : Prop :=
  ∃ s, o = .error .interrupted s ∧ P s

/-- A state that results by leaving scopes from one with a property. -/
def State.Unwound (P : State → Prop) (s : State) : Prop := ∃ t, P t ∧ t.Unwinds s

/-- What is presupposed of two runs. The states in `halts` are those left by interrupted parts that
may differ between the runs. -/
structure Setting where
  /-- What the host provides. -/
  ctx : Context
  /-- The signals that functions keep to. -/
  bodies : Signals
  /-- The states left by the parts that may differ. -/
  halts : State → Prop
  host : ctx.library.Sound bodies
  flagged {t : State} : halts t → t.interrupted = true

namespace Setting

variable (D : Setting) {α β : Type}

/-- A state that results by leaving scopes from one left by a part that may differ. -/
def Halted (s : State) : Prop := s.Unwound D.halts

/-- An evaluation that was interrupted in a part that may differ, and did nothing since. -/
def Halts (o : Outcome State Failure α) : Prop := o.InterruptedIn D.Halted

/-- An outcome in order. -/
inductive Meets (s : State) (Q : State → α → Prop) : Outcome State Failure α → Prop where
  | ok {a : α} {s' : State} (hgrows : s.Grows D.bodies s') (hsound : s'.Sound D.ctx D.bodies)
    (h : Q s' a) : Meets s Q (.ok a s')
  | error {failure : Failure} {s' : State} (hgrows : s.Grows D.bodies s')
    (hsound : s'.Sound D.ctx D.bodies) (h : failure.Legitimate D.bodies s') :
    Meets s Q (.error failure s')
  | exhausted : Meets s Q .exhausted

/-- Two evaluations agree from a sound state: they do the same unless the first one is interrupted
in a part that may differ, and what the first one does is in order. -/
def Agree (s : State) (m m' : Eval α) (Q : State → α → Prop) : Prop :=
  s.Sound D.ctx D.bodies → (m' s = m s ∨ D.Halts (m s)) ∧ D.Meets s Q (m s)

/-! ## What results are expected -/

/-- A sound value. -/
def value (s : State) (v : Value) : Prop := s.store.Sound D.bodies v

/-- A completion that sends no signals but those it may, with a sound value. -/
def completion (here : Signals) (s : State) (c : Completion) : Prop :=
  here.allows c = true ∧ s.store.Sound D.bodies c.value

/-- A round of a loop that goes on or ends the loop as it may end. -/
def round (here : Signals) (s : State) : Eval.Round → Prop
  | .again => True
  | .finish c => D.completion here s c

/-- A result that was kept: as expected, or a legitimate failure. -/
def result (Q : State → α → Prop) (s : State) : Except Failure α → Prop
  | .ok a => Q s a
  | .error failure => failure.Legitimate D.bodies s

variable {D} {s : State} {Q : State → α → Prop} {Q' : State → β → Prop} {m m' : Eval α}

theorem Halted.interrupted (h : D.Halted s) : s.interrupted = true := by
  obtain ⟨t, ht, hunwinds⟩ := h
  rw [hunwinds.interrupted]
  exact D.flagged ht

theorem completion.grows {here : Signals} {s' : State} {c : Completion}
    (h : D.completion here s c) (hs : s.Grows D.bodies s') : D.completion here s' c :=
  ⟨h.1, hs.sound h.2⟩

theorem completion_done (here : Signals) : D.completion here s .done :=
  ⟨rfl, Store.sound_null⟩

theorem completion_normal {here : Signals} {v : Value} (h : D.value s v) :
    D.completion here s (.normal v) :=
  ⟨rfl, h⟩

namespace Meets

variable {s₁ : State} {o : Outcome State Failure α}

theorem imp {Q₁ : State → α → Prop} (h : D.Meets s Q o) (hQ : ∀ s a, Q s a → Q₁ s a) :
    D.Meets s Q₁ o := by
  cases h with
  | ok hgrows hsound h => exact .ok hgrows hsound (hQ _ _ h)
  | error hgrows hsound h => exact .error hgrows hsound h
  | exhausted => exact .exhausted

/-- An outcome in order from a later state is in order. -/
theorem of_grows (hs : s.Grows D.bodies s₁) (h : D.Meets s₁ Q o) : D.Meets s Q o := by
  cases h with
  | ok hgrows hsound h => exact .ok (hs.trans hgrows) hsound h
  | error hgrows hsound h => exact .error (hs.trans hgrows) hsound h
  | exhausted => exact .exhausted

end Meets

namespace Agree

/-! ## Steps -/

/-- A step that both runs take. -/
theorem ok {a : α} {s' : State} (hm : m s = .ok a s')
    (h : s.Sound D.ctx D.bodies → s.Grows D.bodies s' ∧ s'.Sound D.ctx D.bodies ∧ Q s' a) :
    D.Agree s m m Q := by
  intro hs
  obtain ⟨hgrows, hsound, hQ⟩ := h hs
  rw [hm]
  exact ⟨Or.inl rfl, .ok hgrows hsound hQ⟩

/-- A failure in both runs. -/
theorem error {failure : Failure} (hm : m s = .error failure s)
    (h : failure.Legitimate D.bodies s) : D.Agree s m m Q := by
  intro hs
  rw [hm]
  exact ⟨Or.inl rfl, .error (.refl s) hs h⟩

theorem pure {a : α} (h : Q s a) : D.Agree s (pure a) (pure a) Q :=
  ok rfl fun hs => ⟨.refl s, hs, h⟩

theorem fail {failure : Failure} (h : failure.Legitimate D.bodies s) :
    D.Agree s (Eval.fail failure) (Eval.fail failure) Q :=
  error rfl h

theorem raise {cause : Cause} (h : cause.isPlain = true) :
    D.Agree s (Eval.raise cause) (Eval.raise cause) Q :=
  fail (Cause.legitimate_of_isPlain h _ _)

theorem stop : D.Agree s Eval.stop Eval.stop Q := fun _ => ⟨Or.inl rfl, .exhausted⟩

theorem imp {Q₁ : State → α → Prop} (h : D.Agree s m m' Q) (hQ : ∀ s a, Q s a → Q₁ s a) :
    D.Agree s m m' Q₁ := by
  intro hs
  obtain ⟨hsame, hmeets⟩ := h hs
  exact ⟨hsame, hmeets.imp hQ⟩

theorem bind {f f' : α → Eval β} (hm : D.Agree s m m' Q)
    (hf : ∀ a s₁, s.Grows D.bodies s₁ → Q s₁ a → D.Agree s₁ (f a) (f' a) Q') :
    D.Agree s (m >>= f) (m' >>= f') Q' := by
  intro hs
  obtain ⟨hsame, hmeets⟩ := hm hs
  rw [Eval.bind_apply, Eval.bind_apply]
  rcases hsame with hsame | ⟨s₁, herror, hhalted⟩
  · rw [hsame]
    generalize m s = o at hmeets
    cases hmeets with
    | @ok a s₁ hgrows hsound h =>
      obtain ⟨hsame', hmeets'⟩ := hf a s₁ hgrows h hsound
      exact ⟨hsame', hmeets'.of_grows hgrows⟩
    | error hgrows hsound h => exact ⟨Or.inl rfl, .error hgrows hsound h⟩
    | exhausted => exact ⟨Or.inl rfl, .exhausted⟩
  · rw [herror] at hmeets ⊢
    cases hmeets with
    | error hgrows hsound h => exact ⟨Or.inr ⟨s₁, rfl, hhalted⟩, .error hgrows hsound h⟩

/-- Failures are given a position, which an interruption does not take. -/
theorem mapError {f : Failure → Failure} (hinterrupted : f .interrupted = .interrupted)
    (hf : ∀ s failure, failure.Legitimate D.bodies s → (f failure).Legitimate D.bodies s)
    (h : D.Agree s m m' Q) :
    D.Agree s (fun s => (m s).mapError f) (fun s => (m' s).mapError f) Q := by
  intro hs
  obtain ⟨hsame, hmeets⟩ := h hs
  dsimp only
  constructor
  · rcases hsame with hsame | ⟨s₁, herror, hhalted⟩
    · rw [hsame]
      exact Or.inl rfl
    · rw [herror]
      exact Or.inr ⟨s₁, congrArg (Outcome.error · s₁) hinterrupted, hhalted⟩
  · generalize m s = o at hmeets
    cases hmeets with
    | ok hgrows hsound h => exact .ok hgrows hsound h
    | error hgrows hsound h => exact .error hgrows hsound (hf _ _ h)
    | exhausted => exact .exhausted

theorem locating (h : D.Agree s m m' Q) (span : Span) :
    D.Agree s (Eval.locating span m) (Eval.locating span m') Q :=
  mapError (Failure.locate_interrupted span) (fun _ _ hlegitimate => hlegitimate.locate span) h

/-- A check for interruption. -/
theorem checkInterrupt :
    D.Agree s Eval.checkInterrupt Eval.checkInterrupt fun s₁ _ => s₁.interrupted = false := by
  cases hflag : s.interrupted with
  | true =>
    have hm : Eval.checkInterrupt s = .error .interrupted s := by simp [Eval.checkInterrupt, hflag]
    exact error hm hflag
  | false =>
    have hm : Eval.checkInterrupt s = .ok () s := by simp [Eval.checkInterrupt, hflag]
    exact ok hm fun hs => ⟨.refl s, hs, hflag⟩

/-- An evaluation that fails if it was interrupted before. -/
theorem unlessInterrupted (h : s.interrupted = false → D.Agree s m m' Q) :
    D.Agree s (fun s => if s.interrupted then .error .interrupted s else m s)
      (fun s => if s.interrupted then .error .interrupted s else m' s) Q := by
  intro hs
  dsimp only
  cases hflag : s.interrupted with
  | true => exact ⟨Or.inl rfl, .error (.refl s) hs hflag⟩
  | false => exact h hflag hs

/-! ## Changes of the state -/

theorem emit (event : Event) : D.Agree s (Eval.emit event) (Eval.emit event)
    fun s₁ _ => s₁.interrupted = s.interrupted :=
  ok rfl fun hs => ⟨⟨id, .refl _⟩, { hs with }, rfl⟩

theorem emitIf (trace : Bool) (event : Event) :
    D.Agree s (Eval.emitIf trace event) (Eval.emitIf trace event)
      fun s₁ _ => s₁.interrupted = s.interrupted := by
  cases trace with
  | true => exact emit event
  | false => exact pure rfl

/-- A change of the environment. -/
theorem modifyEnv {f : Environment → Environment}
    (h : s.Sound D.ctx D.bodies → (f s.env).All (s.store.Sound D.bodies)) :
    D.Agree s (Eval.modifyEnv f) (Eval.modifyEnv f) fun _ _ => True :=
  ok rfl fun hs => ⟨⟨id, .refl _⟩, hs.withEnv (h hs), trivial⟩

/-- A change of the environment that may be refused. -/
theorem tryEnv {f : Environment → Except BindingError Environment}
    (h : ∀ env, s.Sound D.ctx D.bodies → f s.env = .ok env → env.All (s.store.Sound D.bodies)) :
    D.Agree s (Eval.tryEnv f) (Eval.tryEnv f) fun _ _ => True := by
  cases hf : f s.env with
  | ok env =>
    have hm : Eval.tryEnv f s = .ok () { s with env } := by simp [Eval.tryEnv, hf]
    exact ok hm fun hs => ⟨⟨id, .refl _⟩, hs.withEnv (h env hs hf), trivial⟩
  | error e =>
    have hm : Eval.tryEnv f s = .error (.of (.binding e)) s := by simp [Eval.tryEnv, hf]
    exact error hm trivial

theorem tryWrite {plan : Store → Except Cause Store.Write}
    (h : s.Sound D.ctx D.bodies → OrPlain (Store.Write.Sound D.bodies s.store) (plan s.store)) :
    D.Agree s (Eval.tryWrite plan) (Eval.tryWrite plan) fun _ _ => True := by
  intro hs
  have hplan := h hs
  revert hs
  cases hwrite : plan s.store with
  | ok write =>
    rw [hwrite] at hplan
    have hm : Eval.tryWrite plan s = .ok () { s with store := s.store.write write } := by
      simp [Eval.tryWrite, hwrite]
    have hgrows := Store.grows_write hplan
    exact ok hm fun hs => ⟨⟨id, hgrows⟩, hs.withStore hgrows, trivial⟩
  | error cause =>
    rw [hwrite] at hplan
    have hm : Eval.tryWrite plan s = .error (.of cause) s := by simp [Eval.tryWrite, hwrite]
    exact error hm (Cause.legitimate_of_isPlain hplan _ _)

/-- Something new in the store. -/
theorem allocate {f : Store → Value × Store}
    (hgrows : s.Sound D.ctx D.bodies → s.store.Grows D.bodies (f s.store).2)
    (hsound : s.Sound D.ctx D.bodies → (f s.store).2.Sound D.bodies (f s.store).1) :
    D.Agree s (Eval.allocate f) (Eval.allocate f) D.value :=
  ok rfl fun hs => ⟨⟨id, hgrows hs⟩, hs.withStore (hgrows hs), hsound hs⟩

theorem hostCall (name : String) {f : Store → Reply} (h : (f s.store).Sound D.bodies s.store) :
    D.Agree s (Eval.hostCall name f) (Eval.hostCall name f) D.value := by
  intro hs
  have hflag : s.interrupted = true → (s.interrupted || (f s.store).interrupts) = true := by
    intro hs
    rw [hs, Bool.true_or]
  have hsound : State.Sound D.ctx D.bodies { s with
      store := (f s.store).store, interrupted := s.interrupted || (f s.store).interrupts } :=
    { hs.withStore h.grows with }
  refine ⟨Or.inl rfl, ?_⟩
  unfold Eval.hostCall
  dsimp only
  cases hresult : (f s.store).result with
  | ok v => exact .ok ⟨hflag, h.grows⟩ hsound (h.result v hresult)
  | error message => exact .error ⟨hflag, h.grows⟩ hsound trivial

theorem assignVariable (name : String) {v : Value} (hv : D.value s v) :
    D.Agree s (Rule.assignVariable name v) (Rule.assignVariable name v) fun _ _ => True := by
  intro hs
  refine ⟨Or.inl rfl, ?_⟩
  unfold Rule.assignVariable
  rcases s.env.assign_cases name v with ⟨e, hassign, -⟩ | ⟨i, b, -, hb, -, hassign⟩
  · rw [hassign]
    exact .error (.refl s) hs trivial
  · have hbinding := hs.env.find? hb
    rcases hassign with ⟨-, hassign⟩ | ⟨-, hassign⟩
    · rw [hassign]
      exact .ok (.refl s) hs trivial
    · rw [hassign]
      have henv := hs.withEnv (hs.env.adjust i name fun _ hb => hb.withValue hv)
      have hmutation : Mutation.Sound D.bodies s.store
          ⟨name, b.value, v, b.observers, b.registrations⟩ :=
        ⟨hbinding.value, hv, hbinding.observers, hbinding.registrations⟩
      obtain ⟨hsound, hgrows⟩ := henv.notify hmutation
      exact .ok ⟨hgrows.flag, hgrows.store⟩ hsound trivial

/-! ## Scopes -/

/-- A scope is entered, and left however the evaluation ends. -/
theorem inScope {env : Environment} {leave : Environment → Environment}
    (henter : s.Sound D.ctx D.bodies → env.All (s.store.Sound D.bodies))
    (hleave : ∀ (P : Value → Prop) (env : Environment), env.All P → (leave env).All P)
    (hunwinds : ∀ t s : State, t.Unwinds s → t.Unwinds { s with env := leave s.env })
    (hQ : ∀ (s : State) env a, Q s a → Q { s with env } a)
    (h : D.Agree { s with env } m m' Q) :
    D.Agree s (fun s => (m { s with env }).mapState fun s => { s with env := leave s.env })
      (fun s => (m' { s with env }).mapState fun s => { s with env := leave s.env }) Q := by
  intro hs
  obtain ⟨hsame, hmeets⟩ := h (hs.withEnv (henter hs))
  dsimp only
  constructor
  · rcases hsame with hsame | ⟨s₁, herror, t, ht, hunwound⟩
    · rw [hsame]
      exact Or.inl rfl
    · rw [herror]
      exact Or.inr ⟨_, rfl, t, ht, hunwinds t s₁ hunwound⟩
  · generalize m { s with env } = o at hmeets
    cases hmeets with
    | ok hgrows hsound h =>
      exact .ok ⟨hgrows.flag, hgrows.store⟩ (hsound.withEnv (hleave _ _ hsound.env))
        (hQ _ _ _ h)
    | error hgrows hsound h =>
      refine .error ⟨hgrows.flag, hgrows.store⟩ (hsound.withEnv (hleave _ _ hsound.env)) ?_
      cases ‹Failure› <;> exact h
    | exhausted => exact .exhausted

theorem inBlock (hQ : ∀ (s : State) env a, Q s a → Q { s with env } a)
    (h : D.Agree { s with env := s.env.pushBlock } m m' Q) :
    D.Agree s (Eval.inBlock m) (Eval.inBlock m') Q :=
  inScope (fun hs => hs.env.pushBlock) (fun _ _ henv => henv.pop) (fun _ _ h => .block h) hQ h

theorem inCall {f : Function} {self : Value} (hf : s.store.Fits D.bodies f)
    (hself : D.value s self) (hQ : ∀ (s : State) env a, Q s a → Q { s with env } a)
    (h : ∀ env, s.env.beginCall f self = .ok env → D.Agree { s with env } m m' Q) :
    D.Agree s (Eval.inCall f self m) (Eval.inCall f self m') Q := by
  intro hs
  unfold Eval.inCall
  cases hcall : s.env.beginCall f self with
  | error e => exact ⟨Or.inl rfl, .error (.refl s) hs trivial⟩
  | ok env =>
    exact inScope (fun hs => hs.env.beginCall hself hf.closure hcall)
      (fun _ _ henv => henv.endCall) (fun _ _ h => .call h) hQ (h env hcall) hs

/-! ## Repetition -/

theorem continuing {here : Signals} {rest rest' : Eval Completion} {next : Eval.Round}
    (hnext : D.round here s next) (h : D.Agree s rest rest' (D.completion here)) :
    D.Agree s (Eval.continuing rest next) (Eval.continuing rest' next) (D.completion here) := by
  cases next with
  | again => exact h
  | finish c => exact pure hnext

/-- A loop, by induction on the rounds that are left. -/
theorem repeating {here : Signals} {next next' : Eval Eval.Round}
    (h : ∀ s₁, s.Grows D.bodies s₁ → D.Agree s₁ next next' (D.round here)) (fuel : Nat) :
    D.Agree s (Eval.repeating next fuel) (Eval.repeating next' fuel) (D.completion here) := by
  induction fuel generalizing s with
  | zero => exact stop
  | succ fuel ih =>
    rw [Eval.repeating_succ, Eval.repeating_succ]
    refine (h s (.refl s)).bind fun round s₁ hgrows hround => continuing hround (ih ?_)
    exact fun s₂ hgrows' => h s₂ (hgrows.trans hgrows')

/-- A loop over items, by induction on those that are left. -/
theorem forEach {here : Signals} {next next' : Value → Eval Eval.Round} {items : List Value}
    (hitems : ∀ item ∈ items, D.value s item)
    (h : ∀ item s₁, s.Grows D.bodies s₁ → D.value s₁ item →
      D.Agree s₁ (next item) (next' item) (D.round here)) :
    D.Agree s (Eval.forEach next items) (Eval.forEach next' items) (D.completion here) := by
  induction items generalizing s with
  | nil => exact pure (completion_done here)
  | cons item items ih =>
    rw [List.forall_mem_cons] at hitems
    rw [Eval.forEach_cons, Eval.forEach_cons]
    refine (h item s (.refl s) hitems.1).bind fun round s₁ hgrows hround =>
      continuing hround (ih (fun item hitem => hgrows.sound (hitems.2 item hitem)) ?_)
    exact fun item s₂ hgrows' => h item s₂ (hgrows.trans hgrows')

end Agree

/-! ## Kept failures -/

/-- Evaluations with kept failures agree. An interruption may have been kept, too. -/
def AgreeResult (D : Setting) (s : State) (m m' : Eval (Except Failure α)) (Q : State → α → Prop) :
    Prop :=
  s.Sound D.ctx D.bodies →
    (m' s = m s ∨ ∃ s₁, m s = .ok (.error .interrupted) s₁ ∧ D.Halted s₁) ∧
      D.Meets s (D.result Q) (m s)

theorem Agree.attempt (h : D.Agree s m m' Q) : D.AgreeResult s m.attempt m'.attempt Q := by
  intro hs
  obtain ⟨hsame, hmeets⟩ := h hs
  unfold Eval.attempt
  constructor
  · rcases hsame with hsame | ⟨s₁, herror, hhalted⟩
    · rw [hsame]
      exact Or.inl rfl
    · rw [herror]
      exact Or.inr ⟨s₁, rfl, hhalted⟩
  · generalize m s = o at hmeets
    cases hmeets with
    | ok hgrows hsound h => exact .ok hgrows hsound h
    | error hgrows hsound h => exact .ok hgrows hsound h
    | exhausted => exact .exhausted

theorem AgreeResult.pure {r : Except Failure α} (h : D.result Q s r) :
    D.AgreeResult s (pure r) (pure r) Q :=
  fun hs => ⟨Or.inl rfl, .ok (.refl s) hs h⟩

/-- What follows a kept failure has to let an interruption pass. -/
theorem AgreeResult.bind {m m' : Eval (Except Failure α)} {f f' : Except Failure α → Eval β}
    (hm : D.AgreeResult s m m' Q)
    (hf : ∀ r s₁, m s = .ok r s₁ → s.Grows D.bodies s₁ → D.result Q s₁ r →
      D.Agree s₁ (f r) (f' r) Q')
    (hpass : ∀ s₁, m s = .ok (.error .interrupted) s₁ → D.Halted s₁ →
      D.Halts (f (.error .interrupted) s₁)) :
    D.Agree s (m >>= f) (m' >>= f') Q' := by
  intro hs
  obtain ⟨hsame, hmeets⟩ := hm hs
  have hmeets' : D.Meets s Q' ((m >>= f) s) := by
    rw [Eval.bind_apply]
    generalize ho : m s = o at hmeets
    cases hmeets with
    | ok hgrows hsound h => exact (hf _ _ ho hgrows h hsound).2.of_grows hgrows
    | error hgrows hsound h => exact .error hgrows hsound h
    | exhausted => exact .exhausted
  refine ⟨?_, hmeets'⟩
  rw [Eval.bind_apply, Eval.bind_apply]
  rcases hsame with hsame | ⟨s₁, hok, hhalted⟩
  · rw [hsame]
    generalize ho : m s = o at hmeets
    cases hmeets with
    | ok hgrows hsound h => exact (hf _ _ ho hgrows h hsound).1
    | error | exhausted => exact Or.inl rfl
  · rw [hok]
    exact Or.inr (hpass s₁ hok hhalted)

end Setting

/-! ## Evaluators -/

/-- What is left of a block when nothing runs in it. -/
inductive Idle (t : State) : Outcome State Failure Completion → Prop where
  | interrupted : Idle t (.error .interrupted { t with env := t.env.pushBlock.pop })
  | done (v : Value) : Idle t (.ok (.normal v) { t with env := t.env.pushBlock.pop })

/-- An evaluator that executes nothing in a block after an interruption, unless it has too few steps
for any block to fail. -/
def Evaluator.Idles (ev : Evaluator) : Prop :=
  ∀ {block : List Stmt} {s : State} {failure : Failure} {s₁ : State},
    s.interrupted = false → ev.block block s = .error failure s₁ →
    ∀ body t, t.interrupted = true → Idle t (ev.block body t)

namespace Setting

/-- Evaluators that agree on scoped phrases. -/
structure Alike (D : Setting) (ev ev' : Evaluator) : Prop where
  expr {s : State} {e : Expr} : e.isScoped D.bodies = true →
    D.Agree s (ev.expr e) (ev'.expr e) D.value
  stmt {s : State} {here : Signals} {st : Stmt} : st.isScoped D.bodies here = true →
    D.Agree s (ev.stmt st) (ev'.stmt st) (D.completion here)
  block {s : State} {here : Signals} {body : List Stmt} :
    Stmt.areScoped D.bodies here body = true →
    D.Agree s (ev.block body) (ev'.block body) (D.completion here)
  call {s : State} {f : Value} {args : List Value} {receiver : Option Value} :
    D.value s f → (∀ v ∈ args, D.value s v) → (∀ v ∈ receiver, D.value s v) →
    D.Agree s (ev.call f args receiver) (ev'.call f args receiver) D.value
  rounds : ev'.rounds = ev.rounds
  idles : ev.Idles

/-- One statement of a list goes on with a sound value, or it ends the list as it may end. -/
def step (D : Setting) (here : Signals) (s : State) : Evaluator.Step → Prop
  | .next v => D.value s v
  | .leave c => D.completion here s c

variable {D : Setting} {ev ev' : Evaluator} {s : State} {here : Signals}

namespace Alike

theorem exprs (h : D.Alike ev ev') {es : List Expr} (hes : Expr.areScoped D.bodies es = true) :
    D.Agree s (ev.exprs es) (ev'.exprs es) fun s vs => ∀ v ∈ vs, D.value s v := by
  induction es generalizing s with
  | nil => exact .pure fun _ hv => by cases hv
  | cons e es ih =>
    rw [Expr.areScoped, Bool.and_eq_true] at hes
    refine (h.expr hes.1).bind fun v s₁ _ hv => ?_
    refine (ih hes.2).bind fun vs s₂ hgrows hvs => .pure ?_
    exact List.forall_mem_cons.2 ⟨hgrows.sound hv, hvs⟩

theorem entries (h : D.Alike ev ev') {es : List (String × Expr)}
    (hes : Expr.entriesScoped D.bodies es = true) :
    D.Agree s (ev.entries es) (ev'.entries es) fun s vs => ∀ entry ∈ vs, D.value s entry.2 := by
  induction es generalizing s with
  | nil => exact .pure fun _ hv => by cases hv
  | cons e es ih =>
    rw [Expr.entriesScoped, Bool.and_eq_true] at hes
    refine (h.expr hes.1).bind fun v s₁ _ hv => ?_
    refine (ih hes.2).bind fun vs s₂ hgrows hvs => .pure ?_
    exact List.forall_mem_cons.2 ⟨hgrows.sound hv, hvs⟩

/-- One statement of a list. -/
theorem listStep (h : D.Alike ev ev') {last : Value} {st : Stmt} (hlast : D.value s last)
    (hst : st.isScoped D.bodies here = true) :
    D.Agree s (ev.step last st) (ev'.step last st) (D.step here) := by
  unfold Evaluator.step
  split
  · rename_i span test body
    rw [Stmt.isScoped, StmtKind.isScoped, Bool.and_eq_true] at hst
    refine Agree.checkInterrupt.bind fun _ s₁ hgrows _ => ?_
    refine ((h.expr hst.1).locating span).bind fun guard s₂ hgrows' _ => ?_
    split
    · exact (h.block hst.2).bind fun c s₃ _ hc => .pure hc
    · exact .pure (hgrows'.sound (hgrows.sound hlast))
  · rename_i span kind _
    refine (h.stmt hst).bind fun c s₁ hgrows hc => ?_
    split
    · exact .pure hc.2
    · exact .pure (hgrows.sound hlast)
    · exact .pure hc

/-- A list of statements, by induction on those that are left. -/
theorem stmtsFrom (h : D.Alike ev ev') {last : Value} {body : List Stmt} (hlast : D.value s last)
    (hbody : Stmt.areScoped D.bodies here body = true) :
    D.Agree s (ev.stmtsFrom last body) (ev'.stmtsFrom last body) (D.completion here) := by
  induction body generalizing s last with
  | nil => exact .pure (completion_normal hlast)
  | cons st body ih =>
    rw [Stmt.areScoped, Bool.and_eq_true] at hbody
    rw [Evaluator.stmtsFrom_cons, Evaluator.stmtsFrom_cons]
    refine (h.listStep hlast hbody.1).bind fun next s₁ _ hnext => ?_
    cases next with
    | next last => exact ih hnext hbody.2
    | leave c => exact .pure hnext

theorem stmts (h : D.Alike ev ev') {body : List Stmt}
    (hbody : Stmt.areScoped D.bodies here body = true) :
    D.Agree s (ev.stmts body) (ev'.stmts body) (D.completion here) :=
  h.stmtsFrom Store.sound_null hbody

end Alike

end Setting

end ReactiveScript
