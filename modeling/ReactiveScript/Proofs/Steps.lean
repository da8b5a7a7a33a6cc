import Mathlib.Logic.Relation
import ReactiveScript.Proofs.Preservation

/-!
# Operations on environments

Evaluation uses the operations of an environment in a fixed pattern: what is entered is left again.
A host may use them in any order: it may leave scopes that it never entered, end calls that it never
started, and carry out the halves of a call one by one.

All operations come down to a few elementary steps. A `Step` says what may be lost on the way, so
that a property of environments is looked at once for each kind of step and not for each operation.
-/

namespace ReactiveScript

/-- What stays of a binding that is not replaced: its mode, its position and its observers, to which
others may be added behind. -/
structure Binding.Retains (b b' : Binding) : Prop where
  mode : b'.mode = b.mode
  span : b'.span = b.span
  observers : b.observers <+: b'.observers
  registrations : b.registrations <+: b'.registrations

theorem Binding.Evolves.retains {b b' : Binding} (h : b.Evolves b') : b.Retains b' :=
  ⟨h.mode, h.span, h.observers, h.registrations⟩

theorem Binding.Retains.refl (b : Binding) : b.Retains b := (Binding.Evolves.refl b).retains

theorem Binding.Retains.trans {b₁ b₂ b₃ : Binding} (h : b₁.Retains b₂) (h' : b₂.Retains b₃) :
    b₁.Retains b₃ where
  mode := h'.mode.trans h.mode
  span := h'.span.trans h.span
  observers := h.observers.trans h'.observers
  registrations := h.registrations.trans h'.registrations

theorem Binding.retains_value (b : Binding) (v : Value) : b.Retains { b with value := v } :=
  ⟨rfl, rfl, List.prefix_refl _, List.prefix_refl _⟩

namespace Environment

/-! ## Operations -/

/-- The operations that change an environment. -/
inductive Operation where
  /-- Enters a block. -/
  | pushBlock
  /-- Leaves the innermost scope. -/
  | pop
  /-- Enters the scopes of a call without counting it. -/
  | pushCall (f : Function) (self : Value)
  /-- Leaves the scopes of a call without counting its end. -/
  | popCall
  /-- Counts a call without entering its scopes. -/
  | enterCall
  /-- Counts the end of a call. -/
  | exitCall
  /-- Starts a call. -/
  | beginCall (f : Function) (self : Value)
  /-- Ends a call. -/
  | endCall
  | declare (mode : Mode) (name : String) (value : Value) (span : Option Span)
  | define (name : String) (value : Value) (mode : Mode)
  | setLocal (name : String) (value : Value)
  | assign (name : String) (value : Value)
  | observe (name : String) (handler : Value)
  | observeMany (names : List String) (handler : Value)
  | clear

/-- All functions whose scopes an operation enters have a property. -/
def Operation.Calls (called : Function → Prop) : Operation → Prop
  | .pushCall f _ => called f
  | .beginCall f _ => called f
  | _ => True

/-- Carries out an operation, unless it is refused. -/
def perform (env : Environment) : Operation → Except BindingError Environment
  | .pushBlock => .ok env.pushBlock
  | .pop => .ok env.pop
  | .pushCall f self => .ok (env.pushCall f self)
  | .popCall => .ok env.popCall
  | .enterCall => env.enterCall
  | .exitCall => .ok env.exitCall
  | .beginCall f self => env.beginCall f self
  | .endCall => .ok env.endCall
  | .declare mode name value span => env.declare mode name value span
  | .define name value mode => .ok (env.define name value mode)
  | .setLocal name value => .ok (env.setLocal name value)
  | .assign name value => (env.assign name value).map Prod.fst
  | .observe name handler => env.observe name handler
  | .observeMany names handler => env.observeMany names handler
  | .clear => .ok env.clear

/-- The environment after an operation. One that is refused changes nothing. -/
def after (env : Environment) (op : Operation) : Environment :=
  match env.perform op with
  | .ok env' => env'
  | .error _ => env

/-- The environment after operations in order. -/
def afterAll (env : Environment) (ops : List Operation) : Environment := ops.foldl after env

/-! ## Elementary steps -/

/-- What a step may take away. -/
inductive Loss where
  | nothing
  /-- The innermost scope. -/
  | scope
  /-- A binding of the innermost scope, in favour of another one of its name. -/
  | binding (name : String)
  /-- All scopes but an empty global one. -/
  | everything

/-- The elementary steps. Functions with a property are called. -/
inductive Step (called : Function → Prop) (env : Environment) : Loss → Environment → Prop where
  | block : Step called env .nothing env.pushBlock
  | call {f : Function} (self : Value) (hf : called f) :
    Step called env .nothing (env.pushCall f self)
  | leave : Step called env .scope env.pop
  /-- Calls are counted up to the limit, and down. -/
  | count {n : Nat} (hn : n ≤ env.callDepth ∨ n ≤ env.maxCallDepth) :
    Step called env .nothing { env with callDepth := n }
  | adjust (i : Nat) (name : String) {f : Binding → Binding} (hf : ∀ b : Binding, b.Retains (f b)) :
    Step called env .nothing
      (env.modifyScope i fun bindings => OrderedMap.adjust bindings name f)
  | append (i : Nat) {name : String} (b : Binding)
    (hnew : OrderedMap.has (env.scope i).bindings name = false) :
    Step called env .nothing (env.modifyScope i fun bindings => bindings ++ [(name, b)])
  | put (name : String) (b : Binding) :
    Step called env (.binding name)
      (env.modifyScope env.current fun bindings => OrderedMap.put bindings name b)
  | clear : Step called env .everything env.clear

/-- Any number of elementary steps. -/
abbrev Steps (called : Function → Prop) : Environment → Environment → Prop :=
  Relation.ReflTransGen fun env env' => ∃ loss, Step called env loss env'

/-- Any number of elementary steps that lose nothing. -/
abbrev QuietSteps (called : Function → Prop) : Environment → Environment → Prop :=
  Relation.ReflTransGen fun env env' => Step called env .nothing env'

section Perform

variable {called : Function → Prop} {env env' : Environment} {name : String} {value : Value}

theorem Steps.single {loss : Loss} (h : Step called env loss env') : Steps called env env' :=
  Relation.ReflTransGen.single ⟨loss, h⟩

theorem QuietSteps.steps (h : QuietSteps called env env') : Steps called env env' :=
  h.lift id fun _ _ hstep => ⟨.nothing, hstep⟩

theorem quietSteps_modifyBinding (env : Environment) (name : String) {f : Binding → Binding}
    (hf : ∀ b : Binding, b.Retains (f b)) : QuietSteps called env (env.modifyBinding name f) := by
  unfold modifyBinding
  split
  · exact .refl
  · rename_i i _
    exact .single (.adjust i name hf)

/-- One step for each name, by induction on the names that are left. -/
theorem quietSteps_foldl_modifyBinding {f : Binding → Binding}
    (hf : ∀ b : Binding, b.Retains (f b)) (names : List String) (env : Environment) :
    QuietSteps called env (names.foldl (fun env name => env.modifyBinding name f) env) := by
  induction names generalizing env with
  | nil => exact .refl
  | cons name names ih => exact (quietSteps_modifyBinding env name hf).trans (ih _)

theorem quietSteps_observe {handler : Value} (hok : env.observe name handler = .ok env') :
    QuietSteps called env env' := by
  unfold observe at hok
  split at hok
  · cases hok
    exact quietSteps_modifyBinding env name fun b => (b.evolves_observer handler).retains
  · cases hok

/-- A registration that succeeds is added to the binding of each name. -/
theorem observeMany_ok {names : List String} {handler : Value}
    (hok : env.observeMany names handler = .ok env') :
    env' = names.foldl (fun env name => env.modifyBinding name fun b =>
      { b with registrations := b.registrations ++ [⟨names, handler⟩] }) env := by
  unfold observeMany at hok
  split at hok
  · cases hok
  · cases hok
    rfl

theorem quietSteps_observeMany {names : List String} {handler : Value}
    (hok : env.observeMany names handler = .ok env') : QuietSteps called env env' := by
  rw [observeMany_ok hok]
  exact quietSteps_foldl_modifyBinding (fun b => (b.evolves_registration _).retains) names env

theorem quietSteps_register {targets : List String} {handler : Value}
    (hok : Rule.register targets handler env = .ok env') : QuietSteps called env env' := by
  unfold Rule.register at hok
  split at hok
  · exact quietSteps_observe hok
  · exact quietSteps_observeMany hok

theorem quietSteps_declare {mode : Mode} {span : Option Span}
    (hok : env.declare mode name value span = .ok env') : QuietSteps called env env' := by
  obtain ⟨hnew, rfl⟩ := declare_ok hok
  exact .single (.append _ _ hnew)

theorem quietSteps_setLocal (env : Environment) (name : String) (value : Value) :
    QuietSteps called env (env.setLocal name value) :=
  .single (.adjust env.current name fun b => b.retains_value value)

theorem perform_assign (hok : env.perform (.assign name value) = .ok env') :
    ∃ m, env.assign name value = .ok (env', m) := by
  change (env.assign name value).map Prod.fst = .ok env' at hok
  cases hassign : env.assign name value with
  | error e =>
    rw [hassign] at hok
    cases hok
  | ok result =>
    rw [hassign] at hok
    cases hok
    exact ⟨result.2, rfl⟩

theorem quietSteps_assign {m : Option Mutation} (hok : env.assign name value = .ok (env', m)) :
    QuietSteps called env env' := by
  rcases assign_ok hok with rfl | ⟨i, b, -, -, -, rfl⟩
  · exact .refl
  · exact .single (.adjust i name fun b => b.retains_value value)

theorem quietSteps_enterCall (hok : env.enterCall = .ok env') : QuietSteps called env env' := by
  unfold enterCall at hok
  split at hok
  · rename_i hd
    cases hok
    exact .single (.count (Or.inr hd))
  · cases hok

theorem quietSteps_exitCall (env : Environment) : QuietSteps called env env.exitCall :=
  .single (.count (Or.inl (Nat.sub_le _ 1)))

theorem quietSteps_beginCall {f : Function} {self : Value} (hf : called f)
    (hok : env.beginCall f self = .ok env') : QuietSteps called env env' := by
  obtain ⟨hd, rfl⟩ := beginCall_ok hok
  have hcounted : QuietSteps called env { env with callDepth := env.callDepth + 1 } :=
    .single (.count (Or.inr hd))
  exact hcounted.tail (.call self hf)

theorem steps_popCall (env : Environment) : Steps called env env.popCall :=
  (Steps.single .leave).tail ⟨_, .leave⟩

/-- An operation that is not refused comes down to elementary steps. -/
theorem perform_steps {op : Operation} (hop : op.Calls called) (hok : env.perform op = .ok env') :
    Steps called env env' := by
  cases op with
  | pushBlock =>
    cases hok
    exact .single .block
  | pop =>
    cases hok
    exact .single .leave
  | pushCall f self =>
    cases hok
    exact .single (.call self hop)
  | popCall =>
    cases hok
    exact steps_popCall env
  | enterCall => exact (quietSteps_enterCall hok).steps
  | exitCall =>
    cases hok
    exact (quietSteps_exitCall env).steps
  | beginCall f self => exact (quietSteps_beginCall hop hok).steps
  | endCall =>
    cases hok
    exact (steps_popCall env).trans (quietSteps_exitCall _).steps
  | declare mode name value span => exact (quietSteps_declare hok).steps
  | define name value mode =>
    cases hok
    exact .single (.put name _)
  | setLocal name value =>
    cases hok
    exact (quietSteps_setLocal env name value).steps
  | assign name value =>
    obtain ⟨m, hassign⟩ := perform_assign hok
    exact (quietSteps_assign hassign).steps
  | observe name handler => exact (quietSteps_observe hok).steps
  | observeMany names handler => exact (quietSteps_observeMany hok).steps
  | clear =>
    cases hok
    exact .single .clear

theorem after_steps {op : Operation} (hop : op.Calls called) :
    Steps called env (env.after op) := by
  unfold after
  split
  · rename_i env' hok
    exact perform_steps hop hok
  · exact .refl

/-- Operations come down to elementary steps, by induction on those that are left. -/
theorem afterAll_steps {ops : List Operation} (hops : ∀ op ∈ ops, op.Calls called) :
    Steps called env (env.afterAll ops) := by
  induction ops generalizing env with
  | nil => exact .refl
  | cons op ops ih =>
    rw [List.forall_mem_cons] at hops
    exact (after_steps hops.1).trans (ih hops.2)

end Perform

end Environment

end ReactiveScript
