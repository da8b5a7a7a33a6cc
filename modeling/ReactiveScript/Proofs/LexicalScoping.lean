import ReactiveScript.Proofs.Frames

/-!
# Lexical scoping

A call sees the global scope and what its function captured, and nothing of the place from which it
is called. This is a law about two runs: from environments that agree in the global scope, a call
has the same outcome. Inside of the call both runs see the same frames, although the scopes stand at
other indices, and evaluations that see the same frames do the same.
-/

namespace ReactiveScript

open Environment

/-- Two runs end alike, with the same value or the same error. Of their states only the environments
may differ, and these are related. -/
inductive Outcome.Agrees {ε α : Type} (V : Environment → Environment → Prop) :
    Outcome State ε α → Outcome State ε α → Prop where
  | ok {a : α} {s : State} {env : Environment} (h : V s.env env) :
    Agrees V (.ok a s) (.ok a { s with env })
  | error {e : ε} {s : State} {env : Environment} (h : V s.env env) :
    Agrees V (.error e s) (.error e { s with env })
  | exhausted : Agrees V .exhausted .exhausted

namespace Outcome.Agrees

variable {ε α : Type} {V W : Environment → Environment → Prop} {o o' : Outcome State ε α}

/-- A relation may be replaced by another one that follows with what each run leaves. -/
theorem imp {P Q : State → Prop} (h : o.Agrees V o') (hP : o.Leaves P) (hQ : o'.Leaves Q)
    (hW : ∀ (s : State) env, V s.env env → P s → Q { s with env } → W s.env env) :
    o.Agrees W o' := by
  cases h with
  | ok h =>
    cases hP with
    | ok hp =>
      cases hQ with
      | ok hq => exact .ok (hW _ _ h hp hq)
  | error h =>
    cases hP with
    | error hp =>
      cases hQ with
      | error hq => exact .error (hW _ _ h hp hq)
  | exhausted => exact .exhausted

theorem mapError {f : ε → ε} (h : o.Agrees V o') : (o.mapError f).Agrees V (o'.mapError f) := by
  cases h with
  | ok h => exact .ok h
  | error h => exact .error h
  | exhausted => exact .exhausted

/-- Both runs change their environments at the end. -/
theorem mapState {g : Environment → Environment}
    (h : o.Agrees (fun env env' => V (g env) (g env')) o') :
    (o.mapState fun s => { s with env := g s.env }).Agrees V
      (o'.mapState fun s => { s with env := g s.env }) := by
  cases h with
  | @ok a s env h => exact .ok (s := { s with env := g s.env }) h
  | @error e s env h => exact .error (s := { s with env := g s.env }) h
  | exhausted => exact .exhausted

end Outcome.Agrees

/-- What evaluations of a reach see of an environment is the same. -/
def Reach.Sees : Reach → Environment → Environment → Prop
  | .call => SameGlobal
  | _ => Alike

theorem Reach.Sees.callDepth {r : Reach} {env env' : Environment} (h : r.Sees env env') :
    env'.callDepth = env.callDepth := by
  cases r with
  | call => exact SameGlobal.callDepth h
  | expression | statement | owner => exact Alike.callDepth h

/-- An evaluation keeps to its footprint, and runs that see the same end alike. -/
structure Eval.Lexical {α : Type} (r : Reach) (m : Eval α) : Prop where
  keeps : m.Keeps Linked (Footprint r)
  agrees (s : State) (env : Environment) : r.Sees s.env env → (m s).Agrees r.Sees (m { s with env })

/-! ## Notifications -/

namespace Rule

variable {s : State} {env : Environment}

/-- A notification reads nothing but the values of watched variables. -/
theorem announce_congr (h : ∀ name, env.get? name = s.env.get? name) (m : Mutation)
    (r : Registration) : announce m { s with env } r = { announce m s r with env } := by
  have hvalues : ∀ names, watchedValues env names = watchedValues s.env names := by
    intro names
    unfold watchedValues
    simp only [h]
  unfold announce changeInfo enqueue
  simp only [hvalues]

theorem foldl_announce_congr (m : Mutation) (rs : List Registration)
    (h : ∀ name, env.get? name = s.env.get? name) :
    rs.foldl (announce m) { s with env } = { rs.foldl (announce m) s with env } := by
  induction rs generalizing s with
  | nil => rfl
  | cons r rs ih =>
    rw [List.foldl_cons, List.foldl_cons, announce_congr h]
    exact ih h

theorem foldl_enqueue_congr (m : Mutation) (handlers : List Value) (s : State)
    (env : Environment) :
    handlers.foldl (fun s handler =>
      enqueue { name := m.name, handler, args := changeArgs m } s) { s with env } =
    { handlers.foldl (fun s handler =>
      enqueue { name := m.name, handler, args := changeArgs m } s) s with env } := by
  induction handlers generalizing s with
  | nil => rfl
  | cons handler handlers ih =>
    rw [List.foldl_cons, List.foldl_cons]
    exact ih (enqueue { name := m.name, handler, args := changeArgs m } s)

theorem notify_congr (h : ∀ name, env.get? name = s.env.get? name) (m : Mutation) :
    notify m { s with env } = { notify m s with env } := by
  unfold notify
  dsimp only
  rw [foldl_enqueue_congr]
  refine foldl_announce_congr m m.registrations fun name => ?_
  rw [foldl_enqueue_env]
  exact h name

end Rule

/-! ## Evaluations -/

/-- From related environments an evaluation ends alike, and leaves related environments. -/
def Eval.Transports {α : Type} (V : Environment → Environment → Prop) (m : Eval α) : Prop :=
  ∀ s env, V s.env env → (m s).Agrees V (m { s with env })

namespace Eval.Transports

variable {V : Environment → Environment → Prop} {α β : Type}

theorem stop : (Eval.stop : Eval α).Transports V := fun _ _ _ => .exhausted

theorem pure (a : α) : (pure a : Eval α).Transports V := fun _ _ h => .ok h

theorem fail (failure : Failure) : (Eval.fail failure : Eval α).Transports V :=
  fun _ _ h => .error h

theorem bind {m : Eval α} {f : α → Eval β} (hm : m.Transports V)
    (hf : ∀ a, (f a).Transports V) : (m >>= f).Transports V := by
  intro s env h
  have hfirst := hm s env h
  rw [Eval.bind_apply, Eval.bind_apply]
  generalize m s = o at hfirst
  generalize m { s with env } = o' at hfirst
  cases hfirst with
  | ok h₁ => exact hf _ _ _ h₁
  | error h₁ => exact .error h₁
  | exhausted => exact .exhausted

theorem mapError {m : Eval α} (f : Failure → Failure) (hm : m.Transports V) :
    Eval.Transports V fun s => (m s).mapError f :=
  fun s env h => (hm s env h).mapError

theorem attempt {m : Eval α} (hm : m.Transports V) : m.attempt.Transports V := by
  intro s env h
  have hrun := hm s env h
  unfold Eval.attempt
  generalize m s = o at hrun
  generalize m { s with env } = o' at hrun
  cases hrun with
  | ok h₁ => exact .ok h₁
  | error h₁ => exact .ok h₁
  | exhausted => exact .exhausted

theorem checkInterrupt : Eval.checkInterrupt.Transports V := by
  intro s env h
  unfold Eval.checkInterrupt
  dsimp only
  split
  · exact .error h
  · exact .ok h

theorem store : Eval.store.Transports V := fun _ _ h => .ok h

theorem tryWrite (plan : Store → Except Cause Store.Write) : (Eval.tryWrite plan).Transports V := by
  intro s env h
  unfold Eval.tryWrite
  dsimp only
  split
  · rename_i write _
    exact .ok (s := { s with store := s.store.write write }) h
  · exact .error h

theorem allocate (f : Store → Value × Store) : (Eval.allocate f).Transports V :=
  fun s _ h => .ok (s := { s with store := (f s.store).2 }) h

theorem hostCall (name : String) (f : Store → Reply) : (Eval.hostCall name f).Transports V := by
  intro s env h
  -- The reply is computed from the store, which both runs share.
  have hreplied : V { s with
      store := (f s.store).store
      interrupted := s.interrupted || (f s.store).interrupts }.env env := h
  unfold Eval.hostCall
  dsimp only
  split
  · exact .ok hreplied
  · exact .error hreplied

theorem emit (event : Event) : (Eval.emit event).Transports V :=
  fun s _ h => .ok (s := { s with events := s.events.push event }) h

theorem emitIf (hV : ∀ {env env'}, V env env' → env'.callDepth = env.callDepth) (trace : Bool)
    (event : Nat → Event) :
    Eval.Transports V fun s => Eval.emitIf trace (event s.env.callDepth) s := by
  intro s env h
  dsimp only
  rw [hV h]
  cases trace with
  | false => exact .ok h
  | true => exact .ok (s := { s with events := s.events.push (event s.env.callDepth) }) h

theorem exports (a : α) (names : List String) :
    Eval.Transports V fun s => .ok a { s with exports := s.exports ++ names } :=
  fun s _ h => .ok (s := { s with exports := s.exports ++ names }) h

theorem get (hV : ∀ {env env'}, V env env' → ∀ name, env'.get? name = env.get? name)
    (name : String) : Eval.Transports V fun s => .ok (s.env.get? name) s := by
  intro s env h
  dsimp only
  rw [hV h]
  exact .ok h

theorem capture (hV : ∀ {env env'}, V env env' → env'.capture = env.capture) :
    Eval.Transports V fun s => .ok s.env.capture s := by
  intro s env h
  dsimp only
  rw [hV h]
  exact .ok h

theorem modifyEnv {f : Environment → Environment}
    (hf : ∀ env env', V env env' → V (f env) (f env')) : (Eval.modifyEnv f).Transports V :=
  fun s env h => .ok (s := { s with env := f s.env }) (hf s.env env h)

theorem tryEnv {f : Environment → Except BindingError Environment}
    (hf : ∀ env env', V env env' → SameResult V (f env) (f env')) :
    (Eval.tryEnv f).Transports V := by
  intro s env h
  have hresult := hf s.env env h
  unfold Eval.tryEnv
  dsimp only
  generalize f s.env = x at hresult
  generalize f env = x' at hresult
  cases hresult with
  | @ok env₁ env₁' h₁ => exact .ok (s := { s with env := env₁ }) h₁
  | error e => exact .error h

/-- An assignment of which both environments notify alike. -/
theorem assignVariable {name : String} {v : Value}
    (hget : ∀ {env env'}, V env env' → ∀ name, env'.get? name = env.get? name)
    (hassign : ∀ env env', V env env' →
      SameResult (fun r r' => V r.1 r'.1 ∧ r'.2 = r.2) (env.assign name v) (env'.assign name v)) :
    (Rule.assignVariable name v).Transports V := by
  intro s env h
  have hresult := hassign s.env env h
  unfold Rule.assignVariable
  dsimp only
  generalize s.env.assign name v = x at hresult
  generalize env.assign name v = x' at hresult
  cases hresult with
  | error e => exact .error h
  | @ok r r' h₁ =>
    obtain ⟨env₁, m⟩ := r
    obtain ⟨env₁', m'⟩ := r'
    obtain ⟨hrun, rfl⟩ : V env₁ env₁' ∧ m' = m := h₁
    cases m' with
    | none => exact .ok (s := { s with env := env₁ }) hrun
    | some m =>
      have hnotify := Rule.notify_congr (s := { s with env := env₁ }) (hget hrun) m
      have hleft : V (Rule.notify m { s with env := env₁ }).env env₁' := by
        rw [Rule.notify_env]
        exact hrun
      show Outcome.Agrees _ (.ok () (Rule.notify m { s with env := env₁ }))
        (.ok () (Rule.notify m { s with env := env₁' }))
      rw [hnotify]
      exact .ok hleft

end Eval.Transports

namespace Eval.Lexical

variable {r : Reach} {α β : Type}

/-- An expression that calls sees more than the call. -/
theorem ofCall {m : Eval α} (hm : m.Lexical .call) : m.Lexical .expression where
  keeps s hs := (hm.keeps s hs).imp fun _ => Footprint.law.ofCall hs
  agrees s env h := by
    have hglobal : SameGlobal s.env env := Alike.sameGlobal h
    refine (hm.agrees s env hglobal).imp (hm.keeps s hglobal.linked)
      (hm.keeps { s with env } hglobal.linked') fun s₁ env₁ h₁ hleft hright => ?_
    exact Alike.ofCall h hleft hright h₁

theorem ofExpression {m : Eval α} (hm : m.Lexical .expression) : m.Lexical .statement where
  keeps := Footprint.law.keeps_ofExpression hm.keeps
  agrees := hm.agrees

theorem ofStatement {m : Eval α} (hm : m.Lexical .statement) : m.Lexical .owner where
  keeps := Footprint.law.keeps_ofStatement hm.keeps
  agrees := hm.agrees

theorem bind {m : Eval α} {f : α → Eval β} (hm : m.Lexical r) (hf : ∀ a, (f a).Lexical r) :
    (m >>= f).Lexical r where
  keeps := Footprint.law.keeps_bind hm.keeps fun a => (hf a).keeps
  agrees := Transports.bind hm.agrees fun a => (hf a).agrees

theorem mapError {m : Eval α} (f : Failure → Failure) (hm : m.Lexical r) :
    Eval.Lexical r fun s => (m s).mapError f where
  keeps := EnvironmentLaw.keeps_mapError f hm.keeps
  agrees := Transports.mapError f hm.agrees

theorem attempt {m : Eval α} (hm : m.Lexical r) : m.attempt.Lexical r where
  keeps := EnvironmentLaw.keeps_attempt hm.keeps
  agrees := Transports.attempt hm.agrees

theorem inBlock {m : Eval α} (hm : m.Lexical .owner) : (Eval.inBlock m).Lexical .statement where
  keeps := Footprint.law.keeps_inBlock hm.keeps
  agrees s env h := by
    have hblock : Alike s.env.pushBlock env.pushBlock := Alike.pushBlock h
    have hrun := hm.agrees { s with env := s.env.pushBlock } env.pushBlock hblock
    have hleft := hm.keeps { s with env := s.env.pushBlock } hblock.linked
    have hright := hm.keeps { s with env := env.pushBlock } hblock.linked'
    refine Outcome.Agrees.mapState (hrun.imp hleft hright fun s₁ env₁ h₁ hl hr => ?_)
    exact Alike.pop h hl.toSameShape hr.toSameShape h₁

theorem inCall {m : Eval α} (f : Function) (self : Value) (hm : m.Lexical .owner) :
    (Eval.inCall f self m).Lexical .call where
  keeps := Footprint.law.keeps_inCall f self hm.keeps
  agrees s env h := by
    have hresult := SameGlobal.beginCall h f self
    unfold Eval.inCall
    dsimp only
    cases hcall : s.env.beginCall f self with
    | error e =>
      rw [hcall] at hresult
      generalize env.beginCall f self = x at hresult
      cases hresult
      exact .error h
    | ok env₁ =>
      cases hcall' : env.beginCall f self with
      | error e =>
        rw [hcall, hcall'] at hresult
        cases hresult
      | ok env₁' =>
        rw [hcall, hcall'] at hresult
        obtain ⟨hcalled⟩ := hresult
        have hrun := hm.agrees { s with env := env₁ } env₁' hcalled
        have hleft := hm.keeps { s with env := env₁ } hcalled.linked
        have hright := hm.keeps { s with env := env₁' } hcalled.linked'
        refine Outcome.Agrees.mapState (hrun.imp hleft hright fun s₂ env₂ h₂ hl hr => ?_)
        exact SameGlobal.endCall h hcall hcall' hl.toSameShape hr.toSameShape h₂

/-- Every evaluation is lexical. -/
theorem congruence (trace : Bool) : Congruence trace trace fun r _ m _ => Eval.Lexical r m where
  ofCall := ofCall
  ofExpression := ofExpression
  ofStatement := ofStatement
  stop := ⟨(Footprint.congruence trace trace).stop, Transports.stop⟩
  pure a := ⟨(Footprint.congruence trace trace).pure a, Transports.pure a⟩
  bind := bind
  fail failure := ⟨(Footprint.congruence trace trace).fail failure, Transports.fail failure⟩
  mapError := mapError
  attempt := attempt
  checkInterrupt :=
    ⟨(Footprint.congruence trace trace).checkInterrupt, Transports.checkInterrupt⟩
  store := ⟨(Footprint.congruence trace trace).store, Transports.store⟩
  tryWrite plan := ⟨(Footprint.congruence trace trace).tryWrite plan, Transports.tryWrite plan⟩
  allocate f hf := ⟨(Footprint.congruence trace trace).allocate f hf, Transports.allocate f⟩
  hostCall name f hf :=
    ⟨(Footprint.congruence trace trace).hostCall name f hf, Transports.hostCall name f⟩
  emit event := ⟨(Footprint.congruence trace trace).emit event, Transports.emit event⟩
  emitIf event hevent :=
    ⟨(Footprint.congruence trace trace).emitIf event hevent,
      Transports.emitIf Reach.Sees.callDepth trace event⟩
  exports a names :=
    ⟨(Footprint.congruence trace trace).exports a names, Transports.exports a names⟩
  get name := ⟨(Footprint.congruence trace trace).get name, Transports.get Alike.get? name⟩
  capture := ⟨(Footprint.congruence trace trace).capture, Transports.capture Alike.capture⟩
  assignVariable name v :=
    ⟨Footprint.law.keeps_assignVariable name v,
      Transports.assignVariable Alike.get? fun _ _ h => Alike.assign h name v⟩
  register targets handler :=
    ⟨(Footprint.congruence trace trace).register targets handler,
      Transports.tryEnv fun _ _ h => Alike.register h targets handler⟩
  declare mode name v span :=
    ⟨(Footprint.congruence trace trace).declare mode name v span,
      Transports.tryEnv fun _ _ h => Alike.declare h mode name v span⟩
  define name v mode :=
    ⟨(Footprint.congruence trace trace).define name v mode,
      Transports.modifyEnv fun _ _ h => Alike.define h name v mode⟩
  setLocal name v :=
    ⟨(Footprint.congruence trace trace).setLocal name v,
      Transports.modifyEnv fun _ _ h => Alike.setLocal h name v⟩
  inBlock := inBlock
  inCall := inCall

end Eval.Lexical

/-- Scoping is lexical. From two environments with the same global scope, whatever other scopes they
have, a call ends alike: with the same value or the same error, the same global scope, and the same
store, console, exports, events and waiting notifications. -/
theorem call_ignores_caller (ctx : Context) (fuel : Nat) (f : Value) (args : List Value)
    (receiver : Option Value) (s : State) (env : Environment) (h : SameGlobal s.env env) :
    (Interpreter.callValue ctx fuel f args receiver s).Agrees SameGlobal
      (Interpreter.callValue ctx fuel f args receiver { s with env }) := by
  have hlevel := (Eval.Lexical.congruence ctx.trace).level fuel
  exact (hlevel.call f args receiver).agrees s env h

/-- The block of `nestedBlock` and a function that assigns to the variable of the program and then
looks for the variable of the block. -/
def borrowingCall : State where
  env := nestedBlock.env
  store := { functions := #[⟨none, [], [
    assignTo "total" (Expr.of (.literal (.bool true))),
    assignTo "total" (Expr.of (.ident "count"))], []⟩] }

/-- The function of `borrowingCall` does the same in the block and outside of it. -/
theorem call_ignores_caller_borrowingCall :
    SameGlobal borrowingCall.env twoGlobals ∧
      (Interpreter.callValue plainContext 9 (.function 0) [] none borrowingCall).returns ∧
      (Interpreter.callValue plainContext 9 (.function 0) [] none borrowingCall).Agrees SameGlobal
        (Interpreter.callValue plainContext 9 (.function 0) [] none
          { borrowingCall with env := twoGlobals }) := by
  have hglobal : SameGlobal borrowingCall.env twoGlobals :=
    ⟨by decide +kernel, by decide +kernel, by decide +kernel, rfl, rfl⟩
  refine ⟨hglobal, by decide +kernel, ?_⟩
  exact call_ignores_caller plainContext 9 (.function 0) [] none borrowingCall twoGlobals hglobal

end ReactiveScript
