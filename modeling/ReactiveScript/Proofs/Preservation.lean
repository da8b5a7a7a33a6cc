import ReactiveScript.Proofs.Congruence.Program
import ReactiveScript.Proofs.Scopes

/-!
# What evaluation does to the environment

Evaluation changes an environment in few ways. The binding that a name refers to gets another value
or one more observer; a name is declared; the owner of a scope sets it up; and scopes are entered
and left in pairs. An `EnvironmentLaw` is a relation between environments that covers these changes,
and `EnvironmentLaw.congruence` says that every evaluation then leaves an environment that is so
related to the one it found, whether it succeeds or fails.
-/

namespace ReactiveScript

/-- Whatever state is left has a property, with a value as with an error. -/
inductive Outcome.Leaves {σ ε α : Type} (P : σ → Prop) : Outcome σ ε α → Prop where
  | ok {a : α} {s : σ} (h : P s) : Leaves P (.ok a s)
  | error {e : ε} {s : σ} (h : P s) : Leaves P (.error e s)
  | exhausted : Leaves P .exhausted

/-- Whether a computation came to an end with the steps allowed to it. -/
def Outcome.returns {σ ε α : Type} : Outcome σ ε α → Bool
  | .ok _ _ => true
  | .error _ _ => true
  | .exhausted => false

/-- The value of a computation that ended with one. -/
def Outcome.value? {σ ε α : Type} : Outcome σ ε α → Option α
  | .ok a _ => some a
  | _ => none

/-- The state that a computation leaves when it has a value. -/
def Outcome.state? {σ ε α : Type} : Outcome σ ε α → Option σ
  | .ok _ s => some s
  | .error _ _ => none
  | .exhausted => none

namespace Outcome

variable {σ ε α : Type} {P Q : σ → Prop} {o : Outcome σ ε α}

theorem exists_of_state? {β : Type} {f : σ → β} {b : β} (h : o.state?.map f = some b) :
    ∃ a s, o = .ok a s ∧ f s = b := by
  cases o with
  | ok a s => exact ⟨a, s, rfl, Option.some.inj h⟩
  | error | exhausted => cases h

theorem Leaves.imp (h : o.Leaves P) (hPQ : ∀ s, P s → Q s) : o.Leaves Q := by
  cases h with
  | ok h => exact .ok (hPQ _ h)
  | error h => exact .error (hPQ _ h)
  | exhausted => exact .exhausted

theorem Leaves.of_eq_ok {a : α} {s : σ} (h : o.Leaves P) (ho : o = .ok a s) : P s := by
  subst ho
  cases h with
  | ok h => exact h

theorem Leaves.mapError {f : ε → ε} (h : o.Leaves P) : (o.mapError f).Leaves P := by
  cases h with
  | ok h => exact .ok h
  | error h => exact .error h
  | exhausted => exact .exhausted

theorem Leaves.mapState {f : σ → σ} (h : o.Leaves fun s => P (f s)) :
    (o.mapState f).Leaves P := by
  cases h with
  | ok h => exact .ok h
  | error h => exact .error h
  | exhausted => exact .exhausted

end Outcome

namespace Eval

variable {α β : Type} {m : Eval α} {f : α → Eval β} {s : State} {P Q : State → Prop}

/-- An evaluation after another one leaves what that one leaves, if that one fails. -/
theorem leaves_bind (hm : (m s).Leaves P) (hP : ∀ s₁, P s₁ → Q s₁)
    (hf : ∀ a s₁, P s₁ → (f a s₁).Leaves Q) : ((m >>= f) s).Leaves Q := by
  rw [bind_apply]
  generalize m s = o at hm
  cases hm with
  | ok h => exact hf _ _ h
  | error h => exact .error (hP _ h)
  | exhausted => exact .exhausted

/-- The failure that becomes a result leaves what it left. -/
theorem leaves_attempt (hm : (m s).Leaves P) : (m.attempt s).Leaves P := by
  unfold attempt
  generalize m s = o at hm
  cases hm with
  | ok h | error h => exact .ok h
  | exhausted => exact .exhausted

theorem leaves_checkInterrupt (h : P s) : (checkInterrupt s).Leaves P := by
  unfold checkInterrupt
  split
  · exact .error h
  · exact .ok h

theorem leaves_tryWrite {plan : Store → Except Cause Store.Write} (h : P s)
    (hwrite : ∀ write, P { s with store := s.store.write write }) :
    (tryWrite plan s).Leaves P := by
  unfold tryWrite
  split
  · exact .ok (hwrite _)
  · exact .error h

/-- Host code leaves its store and its request to stop, whatever its answer. -/
theorem leaves_hostCall {name : String} {f : Store → Reply}
    (h : P { s with
      store := (f s.store).store, interrupted := s.interrupted || (f s.store).interrupts }) :
    (hostCall name f s).Leaves P := by
  unfold hostCall
  dsimp only
  split
  · exact .ok h
  · exact .error h

end Eval

/-- What becomes of a binding after its declaration: mode and position stay, a constant keeps its
value, and observers are only added, behind those that are there. -/
structure Binding.Evolves (b b' : Binding) : Prop where
  mode : b'.mode = b.mode
  span : b'.span = b.span
  constant : b.mode = .immutable → b'.value = b.value
  observers : b.observers <+: b'.observers
  registrations : b.registrations <+: b'.registrations

theorem Binding.Evolves.refl (b : Binding) : b.Evolves b where
  mode := rfl
  span := rfl
  constant _ := rfl
  observers := List.prefix_refl _
  registrations := List.prefix_refl _

theorem Binding.Evolves.trans {b₁ b₂ b₃ : Binding} (h : b₁.Evolves b₂) (h' : b₂.Evolves b₃) :
    b₁.Evolves b₃ where
  mode := h'.mode.trans h.mode
  span := h'.span.trans h.span
  constant hc := (h'.constant (h.mode.trans hc)).trans (h.constant hc)
  observers := h.observers.trans h'.observers
  registrations := h.registrations.trans h'.registrations

theorem Binding.evolves_observer (b : Binding) (handler : Value) :
    b.Evolves { b with observers := b.observers ++ [handler] } :=
  { Evolves.refl b with observers := List.prefix_append _ _ }

theorem Binding.evolves_registration (b : Binding) (r : Registration) :
    b.Evolves { b with registrations := b.registrations ++ [r] } :=
  { Evolves.refl b with registrations := List.prefix_append _ _ }

theorem Binding.evolves_value {b : Binding} (hb : b.mode ≠ .immutable) (v : Value) :
    b.Evolves { b with value := v } :=
  { Evolves.refl b with constant := fun hc => absurd hc hb }

/-! ## Notifications -/

namespace Rule

theorem foldl_enqueue_env (m : Mutation) (handlers : List Value) (s : State) :
    (handlers.foldl (fun s handler =>
      enqueue { name := m.name, handler, args := changeArgs m } s) s).env = s.env := by
  induction handlers generalizing s with
  | nil => rfl
  | cons handler handlers ih =>
    rw [List.foldl_cons, ih]
    rfl

theorem foldl_announce_env (m : Mutation) (rs : List Registration) (s : State) :
    (rs.foldl (announce m) s).env = s.env := by
  induction rs generalizing s with
  | nil => rfl
  | cons r rs ih =>
    rw [List.foldl_cons, ih]
    rfl

/-- Notifications leave the environment alone. -/
theorem notify_env (m : Mutation) (s : State) : (notify m s).env = s.env := by
  unfold notify
  rw [foldl_announce_env, foldl_enqueue_env]

end Rule

/-! ## Laws -/

/-- A relation between the environments before and after an evaluation of a given reach, for
environments with a property `pre` that every evaluation finds. -/
structure EnvironmentLaw (pre : Environment → Prop)
    (E : Reach → Environment → Environment → Prop) : Prop where
  pre_of {r : Reach} {env env' : Environment} : pre env → E r env env' → pre env'
  refl {r : Reach} (env : Environment) : E r env env
  trans {r : Reach} {env₁ env₂ env₃ : Environment} :
    E r env₁ env₂ → E r env₂ env₃ → E r env₁ env₃
  ofCall {env env' : Environment} : pre env → E .call env env' → E .expression env env'
  ofExpression {env env' : Environment} : E .expression env env' → E .statement env env'
  ofStatement {env env' : Environment} : E .statement env env' → E .owner env env'
  /-- The binding that a name refers to evolves. -/
  modify {env : Environment} {name : String} {i : Nat} {f : Binding → Binding} :
    pre env → env.position? name = some i →
    (∀ b, OrderedMap.find? (env.scope i).bindings name = some b → b.Evolves (f b)) →
    E .expression env (env.modifyScope i fun bindings => OrderedMap.adjust bindings name f)
  /-- A name is declared where its mode demands. -/
  declare {env : Environment} (mode : Mode) (name : String) (b : Binding) : pre env →
    E .statement env
      (env.modifyScope (env.declarationScope mode) fun bindings => bindings ++ [(name, b)])
  /-- The owner of the innermost scope changes it. -/
  own (env : Environment) (f : OrderedMap Binding → OrderedMap Binding) :
    E .owner env (env.modifyScope env.current f)
  enterBlock {env : Environment} : pre env → pre env.pushBlock
  leaveBlock {env env' : Environment} :
    pre env → E .owner env.pushBlock env' → E .statement env env'.pop
  enterCall {env env₁ : Environment} {f : Function} {self : Value} :
    pre env → env.beginCall f self = .ok env₁ → pre env₁
  leaveCall {env env₁ env' : Environment} {f : Function} {self : Value} :
    pre env → env.beginCall f self = .ok env₁ → E .owner env₁ env' → E .call env env'.endCall

/-- An evaluation leaves an environment that is related to the one it found. -/
def Eval.Keeps {α : Type} (pre : Environment → Prop) (E : Environment → Environment → Prop)
    (m : Eval α) : Prop :=
  ∀ s, pre s.env → (m s).Leaves fun s' => E s.env s'.env

namespace EnvironmentLaw

variable {pre : Environment → Prop} {E : Reach → Environment → Environment → Prop} {r : Reach}
  {α β : Type}

/-- A law of environments that have a further property, if nothing that the law covers ends it. -/
theorem strengthen {pre' : Environment → Prop} (law : EnvironmentLaw pre E)
    (hpre : ∀ {r env env'}, pre env → pre' env → E r env env' → pre' env')
    (hblock : ∀ {env}, pre env → pre' env → pre' env.pushBlock)
    (hcall : ∀ {env env₁ f self}, pre env → pre' env → env.beginCall f self = .ok env₁ →
      pre' env₁) :
    EnvironmentLaw (fun env => pre env ∧ pre' env) E where
  pre_of henv h := ⟨law.pre_of henv.1 h, hpre henv.1 henv.2 h⟩
  refl := law.refl
  trans := law.trans
  ofCall henv := law.ofCall henv.1
  ofExpression := law.ofExpression
  ofStatement := law.ofStatement
  modify henv := law.modify henv.1
  declare mode name b henv := law.declare mode name b henv.1
  own := law.own
  enterBlock henv := ⟨law.enterBlock henv.1, hblock henv.1 henv.2⟩
  leaveBlock henv := law.leaveBlock henv.1
  enterCall henv h := ⟨law.enterCall henv.1 h, hcall henv.1 henv.2 h⟩
  leaveCall henv := law.leaveCall henv.1

/-- Evaluations that leave the environment alone keep every law. -/
theorem keeps_of_env_eq (law : EnvironmentLaw pre E) {m : Eval α}
    (h : ∀ s, (m s).Leaves fun s' => s'.env = s.env) : m.Keeps pre (E r) := by
  intro s _
  refine (h s).imp fun s' hs' => ?_
  rw [hs']
  exact law.refl _

theorem keeps_bind (law : EnvironmentLaw pre E) {m : Eval α} {f : α → Eval β}
    (hm : m.Keeps pre (E r)) (hf : ∀ a, (f a).Keeps pre (E r)) : (m >>= f).Keeps pre (E r) := by
  intro s hs
  refine Eval.leaves_bind (hm s hs) (fun _ => id) fun a s₁ h₁ => ?_
  exact (hf a s₁ (law.pre_of hs h₁)).imp fun s₂ h₂ => law.trans h₁ h₂

theorem keeps_ofCall (law : EnvironmentLaw pre E) {m : Eval α} (hm : m.Keeps pre (E .call)) :
    m.Keeps pre (E .expression) :=
  fun s hs => (hm s hs).imp fun _ => law.ofCall hs

theorem keeps_ofExpression (law : EnvironmentLaw pre E) {m : Eval α}
    (hm : m.Keeps pre (E .expression)) : m.Keeps pre (E .statement) :=
  fun s hs => (hm s hs).imp fun _ => law.ofExpression

theorem keeps_ofStatement (law : EnvironmentLaw pre E) {m : Eval α}
    (hm : m.Keeps pre (E .statement)) : m.Keeps pre (E .owner) :=
  fun s hs => (hm s hs).imp fun _ => law.ofStatement

theorem keeps_mapError {m : Eval α} (f : Failure → Failure) (hm : m.Keeps pre (E r)) :
    Eval.Keeps pre (E r) fun s => (m s).mapError f :=
  fun s hs => (hm s hs).mapError

theorem keeps_attempt {m : Eval α} (hm : m.Keeps pre (E r)) : m.attempt.Keeps pre (E r) :=
  fun s hs => Eval.leaves_attempt (hm s hs)

/-- A change of the environment that may be refused. -/
theorem keeps_tryEnv {f : Environment → Except BindingError Environment}
    (law : EnvironmentLaw pre E)
    (h : ∀ env env', pre env → f env = .ok env' → E r env env') :
    (Eval.tryEnv f).Keeps pre (E r) := by
  intro s hs
  unfold Eval.tryEnv
  cases hf : f s.env with
  | ok env => exact .ok (h s.env env hs hf)
  | error e => exact .error (law.refl _)

theorem keeps_assignVariable (law : EnvironmentLaw pre E) (name : String) (v : Value) :
    (Rule.assignVariable name v).Keeps pre (E .expression) := by
  intro s hs
  have hassign : ∀ env m, s.env.assign name v = .ok (env, m) → E .expression s.env env := by
    intro env m h
    rcases Environment.assign_ok h with rfl | ⟨i, b, hi, hb, hmode, rfl⟩
    · exact law.refl _
    · refine law.modify hs hi fun b' hb' => ?_
      obtain rfl : b = b' := Option.some.inj (hb.symm.trans hb')
      exact Binding.evolves_value hmode v
  unfold Rule.assignVariable
  split
  · exact .error (law.refl _)
  · rename_i env h
    exact .ok (hassign env none h)
  · rename_i env m h
    refine .ok ?_
    rw [Rule.notify_env]
    exact hassign env (some m) h

theorem modifyBinding (law : EnvironmentLaw pre E) {env : Environment} (henv : pre env)
    (name : String) {f : Binding → Binding} (hf : ∀ b : Binding, b.Evolves (f b)) :
    E .expression env (env.modifyBinding name f) := by
  unfold Environment.modifyBinding
  split
  · exact law.refl _
  · rename_i i hi
    exact law.modify henv hi fun b _ => hf b

/-- A change of several bindings, by induction on the names that are left. -/
theorem foldl_modifyBinding (law : EnvironmentLaw pre E) {f : Binding → Binding}
    (hf : ∀ b : Binding, b.Evolves (f b)) (names : List String) {env : Environment}
    (henv : pre env) :
    E .expression env (names.foldl (fun env name => env.modifyBinding name f) env) := by
  induction names generalizing env with
  | nil => exact law.refl env
  | cons name names ih =>
    have hfirst := law.modifyBinding henv name hf
    exact law.trans hfirst (ih (law.pre_of henv hfirst))

theorem register (law : EnvironmentLaw pre E) {targets : List String} {handler : Value}
    {env env' : Environment} (henv : pre env)
    (h : Rule.register targets handler env = .ok env') : E .expression env env' := by
  unfold Rule.register at h
  split at h
  · unfold Environment.observe at h
    split at h
    · cases h
      exact law.modifyBinding henv _ fun b => b.evolves_observer handler
    · cases h
  · unfold Environment.observeMany at h
    split at h
    · cases h
    · cases h
      exact law.foldl_modifyBinding (fun b => b.evolves_registration _) targets henv

theorem keeps_inBlock (law : EnvironmentLaw pre E) {m : Eval α} (hm : m.Keeps pre (E .owner)) :
    (Eval.inBlock m).Keeps pre (E .statement) := by
  intro s hs
  exact ((hm _ (law.enterBlock hs)).imp fun s' hs' => law.leaveBlock hs hs').mapState

theorem keeps_inCall (law : EnvironmentLaw pre E) {m : Eval α} (f : Function) (self : Value)
    (hm : m.Keeps pre (E .owner)) : (Eval.inCall f self m).Keeps pre (E .call) := by
  intro s hs
  unfold Eval.inCall
  split
  · exact .error (law.refl _)
  · rename_i env henv
    have hbody := hm { s with env := env } (law.enterCall hs henv)
    exact (hbody.imp fun s' hs' => law.leaveCall hs henv hs').mapState

/-- Every evaluation keeps a law of environments. -/
theorem congruence (law : EnvironmentLaw pre E) (trace trace' : Bool) :
    Congruence trace trace' fun r _ m _ => Eval.Keeps pre (E r) m where
  ofCall hm := law.keeps_ofCall hm
  ofExpression hm := law.keeps_ofExpression hm
  ofStatement hm := law.keeps_ofStatement hm
  stop := law.keeps_of_env_eq fun _ => .exhausted
  pure a := law.keeps_of_env_eq fun _ => .ok rfl
  bind hm hf := law.keeps_bind hm hf
  fail failure := law.keeps_of_env_eq fun _ => .error rfl
  mapError f hm := keeps_mapError f hm
  attempt hm := keeps_attempt hm
  checkInterrupt := law.keeps_of_env_eq fun _ => Eval.leaves_checkInterrupt rfl
  store := law.keeps_of_env_eq fun _ => .ok rfl
  tryWrite plan := law.keeps_of_env_eq fun _ => Eval.leaves_tryWrite rfl fun _ => rfl
  allocate f _ := law.keeps_of_env_eq fun _ => .ok rfl
  hostCall name f _ := law.keeps_of_env_eq fun _ => Eval.leaves_hostCall rfl
  emit event := law.keeps_of_env_eq fun _ => .ok rfl
  emitIf event _ := law.keeps_of_env_eq fun s => by
    cases trace <;> exact .ok rfl
  exports a names := law.keeps_of_env_eq fun _ => .ok rfl
  get name := law.keeps_of_env_eq fun _ => .ok rfl
  capture := law.keeps_of_env_eq fun _ => .ok rfl
  assignVariable name v := law.keeps_assignVariable name v
  register targets handler := law.keeps_tryEnv fun _ _ => law.register
  declare mode name v span := law.keeps_tryEnv fun env env' henv h => by
    obtain ⟨_, rfl⟩ := Environment.declare_ok h
    exact law.declare mode name _ henv
  define name v mode s _ := by
    exact .ok (law.own s.env fun bindings =>
      OrderedMap.put bindings name { mode := mode, value := v })
  setLocal name v s _ := by
    exact .ok (law.own s.env fun bindings =>
      OrderedMap.adjust bindings name fun b => { b with value := v })
  inBlock hm := law.keeps_inBlock hm
  inCall f self hm := law.keeps_inCall f self hm

end EnvironmentLaw

end ReactiveScript
