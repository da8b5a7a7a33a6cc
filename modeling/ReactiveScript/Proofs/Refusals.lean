import ReactiveScript.Environment.InPlace
import ReactiveScript.Proofs.WellFormed

/-!
# Refused operations

An operation on an environment is carried out as a whole or not at all. Carried out in place, it
could leave a part of its work behind where it is refused; `inPlace_eq` says that it does not, since
it checks before it writes. `Refuses` lists the refusals with their reasons, in terms of the scopes
on the chain, and `perform_eq_error_iff` says that there are no others.
-/

namespace ReactiveScript

namespace Environment

/-! ## Carrying out operations in place -/

/-- An operation in place. -/
def Operation.inPlace : Operation → InPlace Unit
  | .pushBlock => modify (·.pushBlock)
  | .pop => modify (·.pop)
  | .pushCall f self => modify (·.pushCall f self)
  | .popCall => do
    modify (·.pop)
    modify (·.pop)
  | .enterCall => InPlace.enterCall
  | .exitCall => modify (·.exitCall)
  | .beginCall f self => InPlace.beginCall f self
  | .endCall => do
    modify (·.popCall)
    modify (·.exitCall)
  | .declare mode name value span => InPlace.declare mode name value span
  | .define name value mode => modify (·.define name value mode)
  | .setLocal name value => modify (·.setLocal name value)
  | .assign name value => do
    let _ ← InPlace.assign name value
    pure ()
  | .observe name handler => InPlace.observe name handler
  | .observeMany names handler => InPlace.observeMany names handler
  | .clear => modify (·.clear)

/-- What is left of an environment where a result takes effect as a whole or not at all. -/
def settle {α : Type} (env : Environment) :
    Except BindingError (α × Environment) → EStateM.Result BindingError Environment α
  | .ok (a, env') => .ok a env'
  | .error e => .error e env

namespace InPlace

variable {env : Environment} {name : String} {value : Value}

theorem bind_apply {α β : Type} (m : InPlace α) (f : α → InPlace β) (env : Environment) :
    (m >>= f) env = match m env with
      | .ok a env => f a env
      | .error e env => .error e env := by
  show EStateM.bind m f env = _
  unfold EStateM.bind
  cases m env <;> rfl

theorem get_apply (env : Environment) : (get : InPlace Environment) env = .ok env env := rfl

theorem resolve_of_none {refusal : BindingError} (hi : env.position? name = none) :
    resolve name refusal env = .error refusal env := by
  unfold resolve
  rw [bind_apply, get_apply]
  dsimp only
  rw [hi]
  rfl

theorem resolve_of_some {refusal : BindingError} {i : Nat} {b : Binding}
    (hi : env.position? name = some i)
    (hb : OrderedMap.find? (env.scope i).bindings name = some b) :
    resolve name refusal env = .ok (i, b) env := by
  unfold resolve
  rw [bind_apply, get_apply]
  dsimp only
  rw [hi]
  dsimp only
  rw [hb]
  rfl

/-- A declaration checks its scope before it writes to it. -/
theorem declare_eq (mode : Mode) (name : String) (value : Value) (span : Option Span)
    (env : Environment) : declare mode name value span env =
      settle env ((env.declare mode name value span).map fun env' => ((), env')) := by
  show (if OrderedMap.has (env.scope (env.declarationScope mode)).bindings name then _ else _ :
    InPlace Unit) env = _
  unfold Environment.declare
  dsimp only
  by_cases hhas : OrderedMap.has (env.scope (env.declarationScope mode)).bindings name = true
  · rw [if_pos hhas, if_pos hhas]
    rfl
  · rw [if_neg hhas, if_neg hhas]
    have hnew := OrderedMap.put_eq_concat (Bool.eq_false_iff.2 hhas)
    exact congrArg (EStateM.Result.ok ()) (modifyScope_congr (hnew _))

theorem assign_eq (name : String) (value : Value) (env : Environment) :
    assign name value env =
      settle env ((env.assign name value).map fun result => (result.2, result.1)) := by
  unfold assign Environment.assign
  rw [bind_apply]
  cases hi : env.position? name with
  | none =>
    rw [resolve_of_none hi]
    rfl
  | some i =>
    obtain ⟨b, hb⟩ := find?_of_position hi
    rw [resolve_of_some hi hb]
    dsimp only
    rw [hb]
    dsimp only
    by_cases hmode : (!b.mode.isMutable) = true
    · rw [if_pos hmode, if_pos hmode]
      rfl
    · rw [if_neg hmode, if_neg hmode]
      by_cases hsame : b.value.sameValue value = true
      · rw [if_pos hsame, if_pos hsame]
        rfl
      · rw [if_neg hsame, if_neg hsame]
        rfl

theorem observe_eq (name : String) (handler : Value) (env : Environment) :
    observe name handler env =
      settle env ((env.observe name handler).map fun env' => ((), env')) := by
  unfold observe Environment.observe contains modifyBinding
  rw [bind_apply]
  cases hi : env.position? name with
  | none =>
    rw [resolve_of_none hi]
    rfl
  | some i =>
    obtain ⟨b, hb⟩ := find?_of_position hi
    rw [resolve_of_some hi hb]
    rfl

/-- The checks write nothing, by induction on the names that are left. -/
theorem checkBound_eq (names : List String) (env : Environment) :
    checkBound names env = match names.find? fun name => !env.contains name with
      | some missing => .error (.unobservable missing) env
      | none => .ok () env := by
  induction names with
  | nil => rfl
  | cons name names ih =>
    show (if env.contains name then checkBound names else throw (.unobservable name)) env = _
    rw [List.find?_cons]
    cases hbound : env.contains name with
    | true => exact ih
    | false => rfl

/-- By induction on the names that are left. -/
theorem attach_eq (r : Registration) (names : List String) (env : Environment) :
    attach r names env = .ok () (names.foldl (fun env name => env.modifyBinding name fun b =>
      { b with registrations := b.registrations ++ [r] }) env) := by
  induction names generalizing env with
  | nil => rfl
  | cons name names ih => exact ih _

/-- A registration attaches nothing unless all names refer to variables. -/
theorem observeMany_eq (names : List String) (handler : Value) (env : Environment) :
    observeMany names handler env =
      settle env ((env.observeMany names handler).map fun env' => ((), env')) := by
  unfold observeMany Environment.observeMany
  rw [bind_apply, checkBound_eq]
  cases names.find? fun name => !env.contains name with
  | some missing => rfl
  | none => exact attach_eq _ _ _

theorem enterCall_eq (env : Environment) :
    enterCall env = settle env (env.enterCall.map fun env' => ((), env')) := by
  show (if env.maxCallDepth ≤ env.callDepth then _ else _ : InPlace Unit) env = _
  unfold Environment.enterCall
  by_cases hd : env.maxCallDepth ≤ env.callDepth
  · rw [if_pos hd, if_neg (Nat.not_lt.2 hd)]
    rfl
  · rw [if_neg hd, if_pos (Nat.lt_of_not_le hd)]
    rfl

/-- A call that is not counted enters no scope. -/
theorem beginCall_eq (f : Function) (self : Value) (env : Environment) :
    beginCall f self env = settle env ((env.beginCall f self).map fun env' => ((), env')) := by
  unfold beginCall Environment.beginCall
  rw [bind_apply, enterCall_eq]
  cases env.enterCall with
  | error e => rfl
  | ok env' => rfl

end InPlace

/-- An operation in place does all of its work, or none if it is refused. -/
theorem inPlace_eq (op : Operation) (env : Environment) :
    op.inPlace env = settle env ((env.perform op).map fun env' => ((), env')) := by
  cases op with
  | declare mode name value span => exact InPlace.declare_eq mode name value span env
  | assign name value =>
    show (InPlace.assign name value >>= fun _ => pure ()) env = _
    rw [InPlace.bind_apply, InPlace.assign_eq]
    show _ = settle env (((env.assign name value).map Prod.fst).map _)
    cases env.assign name value with
    | error e => rfl
    | ok result => rfl
  | observe name handler => exact InPlace.observe_eq name handler env
  | observeMany names handler => exact InPlace.observeMany_eq names handler env
  | enterCall => exact InPlace.enterCall_eq env
  | beginCall f self => exact InPlace.beginCall_eq f self env
  | pushBlock | pop | pushCall | popCall | exitCall | endCall | define | setLocal | clear => rfl

/-! ## What is refused, and why -/

/-- No scope that lookups visit binds a name. -/
def Unbound (env : Environment) (name : String) : Prop :=
  ∀ i ∈ env.chain, OrderedMap.has (env.scope i).bindings name = false

/-- The first scope that lookups visit and that binds a name, and its binding. -/
def FirstBinds (env : Environment) (name : String) (i : Nat) (b : Binding) : Prop :=
  ∃ inner outer, env.chain = inner ++ i :: outer ∧
    (∀ j ∈ inner, OrderedMap.has (env.scope j).bindings name = false) ∧
    OrderedMap.find? (env.scope i).bindings name = some b

/-- The scope in which a mode declares. -/
inductive DeclaresIn (env : Environment) : Mode → Nat → Prop where
  | innermost {mode : Mode} (h : mode ≠ .mutable) : DeclaresIn env mode (env.depth - 1)
  /-- `var` declares in the nearest scope of a call, or else in the global one. -/
  | nearest {inner outer : List Nat} {i : Nat} (hchain : env.chain = inner ++ i :: outer)
    (hinner : ∀ j ∈ inner, (env.scope j).kind ≠ .function ∧ (env.scope j).kind ≠ .global)
    (hkind : (env.scope i).kind = .function ∨ (env.scope i).kind = .global) :
    DeclaresIn env .mutable i

/-- The operations that are refused, with their reasons. -/
inductive Refuses (env : Environment) : Operation → BindingError → Prop where
  | duplicate {mode : Mode} {name : String} {value : Value} {span : Option Span} {i : Nat}
    (hi : env.DeclaresIn mode i) (h : OrderedMap.has (env.scope i).bindings name = true) :
    Refuses env (.declare mode name value span) (.duplicate name)
  | undeclared {name : String} {value : Value} (h : env.Unbound name) :
    Refuses env (.assign name value) (.undeclared name)
  | immutable {name : String} {value : Value} {i : Nat} {b : Binding}
    (h : env.FirstBinds name i b) (hmode : b.mode = .immutable) :
    Refuses env (.assign name value) (.immutable name)
  | unobservable {name : String} {handler : Value} (h : env.Unbound name) :
    Refuses env (.observe name handler) (.unobservable name)
  /-- The first of the names that is not bound is to blame. -/
  | unobservableAmong {bound others : List String} {name : String} {handler : Value}
    (hbound : ∀ w ∈ bound, ¬ env.Unbound w) (h : env.Unbound name) :
    Refuses env (.observeMany (bound ++ name :: others) handler) (.unobservable name)
  | uncounted (h : env.maxCallDepth ≤ env.callDepth) :
    Refuses env .enterCall (.stackOverflow env.callDepth env.maxCallDepth)
  | unstarted {f : Function} {self : Value} (h : env.maxCallDepth ≤ env.callDepth) :
    Refuses env (.beginCall f self) (.stackOverflow env.callDepth env.maxCallDepth)

section Refuses

variable {env : Environment} {name : String} {value : Value} {i : Nat} {b : Binding}
  {e : BindingError}

theorem position?_eq_none_iff : env.position? name = none ↔ env.Unbound name := by
  unfold position? Unbound
  simp only [List.find?_eq_none, Bool.not_eq_true]

theorem contains_eq_false_iff : env.contains name = false ↔ env.Unbound name := by
  rw [← position?_eq_none_iff]
  unfold contains
  rw [Option.isSome_eq_false_iff, Option.isNone_iff_eq_none]

theorem firstBinds_iff : env.FirstBinds name i b ↔
    env.position? name = some i ∧ OrderedMap.find? (env.scope i).bindings name = some b := by
  unfold FirstBinds position?
  rw [List.find?_eq_some_iff_append]
  constructor
  · rintro ⟨inner, outer, hchain, hinner, hb⟩
    refine ⟨⟨?_, inner, outer, hchain, fun j hj => ?_⟩, hb⟩
    · unfold OrderedMap.has
      rw [hb]
      rfl
    · rw [hinner j hj]
      rfl
  · rintro ⟨⟨-, inner, outer, hchain, hinner⟩, hb⟩
    exact ⟨inner, outer, hchain, fun j hj => by simpa using hinner j hj, hb⟩

theorem takesVars_iff {s : Scope} : takesVars s = true ↔ s.kind = .function ∨ s.kind = .global := by
  simp [takesVars]

/-- Where a mode declares. The walk for `var` finds a scope, since it ends at the global one. -/
theorem WellFormed.declaresIn_iff (h : env.WellFormed) {mode : Mode} :
    env.DeclaresIn mode i ↔ env.declarationScope mode = i := by
  have hglobal : takesVars (env.scope 0) = true :=
    takesVars_iff.2 (Or.inr ((h.placed h.nonempty).global_iff.2 rfl))
  have hfound : (env.chain.find? fun i => takesVars (env.scope i)).isSome :=
    List.find?_isSome.2 ⟨0, h.linked.zero_mem_chain, hglobal⟩
  obtain ⟨j, hj⟩ := Option.isSome_iff_exists.1 hfound
  have hvar : env.varScope = j := by
    unfold varScope
    rw [hj]
    rfl
  unfold declarationScope
  constructor
  · intro hi
    cases hi with
    | innermost hmode => exact if_neg hmode
    | nearest hchain hinner hkind =>
      rw [if_pos rfl, hvar]
      refine Option.some.inj (hj.symm.trans ?_)
      rw [List.find?_eq_some_iff_append]
      refine ⟨takesVars_iff.2 hkind, _, _, hchain, fun k hk => ?_⟩
      rw [Bool.not_eq_true', ← Bool.not_eq_true, takesVars_iff, not_or]
      exact hinner k hk
  · rintro rfl
    by_cases hmode : mode = .mutable
    · rw [if_pos hmode, hmode, hvar]
      obtain ⟨htakes, inner, outer, hchain, hinner⟩ := List.find?_eq_some_iff_append.1 hj
      refine .nearest hchain (fun k hk => ?_) (takesVars_iff.1 htakes)
      have hk := hinner k hk
      rwa [Bool.not_eq_true', ← Bool.not_eq_true, takesVars_iff, not_or] at hk
    · rw [if_neg hmode]
      exact .innermost hmode

theorem WellFormed.refuses_declare_iff (h : env.WellFormed) {mode : Mode} {span : Option Span} :
    env.Refuses (.declare mode name value span) e ↔
      env.declare mode name value span = .error e := by
  unfold declare
  dsimp only
  constructor
  · intro hrefuses
    cases hrefuses with
    | duplicate hi hhas =>
      obtain rfl := h.declaresIn_iff.1 hi
      rw [if_pos hhas]
  · intro hrefused
    split at hrefused
    · rename_i hhas
      cases hrefused
      exact .duplicate (h.declaresIn_iff.2 rfl) hhas
    · cases hrefused

theorem refuses_assign_iff :
    env.Refuses (.assign name value) e ↔ env.assign name value = .error e := by
  unfold assign
  constructor
  · intro h
    cases h with
    | undeclared h => rw [position?_eq_none_iff.2 h]
    | immutable h hmode =>
      obtain ⟨hi, hb⟩ := firstBinds_iff.1 h
      rw [hi]
      dsimp only
      rw [hb]
      dsimp only
      rw [hmode]
      rfl
  · intro hrefused
    cases hi : env.position? name with
    | none =>
      rw [hi] at hrefused
      cases hrefused
      exact .undeclared (position?_eq_none_iff.1 hi)
    | some i =>
      obtain ⟨b, hb⟩ := find?_of_position hi
      rw [hi] at hrefused
      dsimp only at hrefused
      rw [hb] at hrefused
      dsimp only at hrefused
      split at hrefused
      · rename_i hmode
        cases hrefused
        refine .immutable (firstBinds_iff.2 ⟨hi, hb⟩) ?_
        simpa [Mode.isMutable] using hmode
      · split at hrefused <;> cases hrefused

theorem refuses_observe_iff {handler : Value} :
    env.Refuses (.observe name handler) e ↔ env.observe name handler = .error e := by
  unfold observe
  constructor
  · intro h
    cases h with
    | unobservable h =>
      rw [contains_eq_false_iff.2 h]
      rfl
  · intro h
    cases hbound : env.contains name with
    | true =>
      rw [hbound] at h
      cases h
    | false =>
      rw [hbound] at h
      cases h
      exact .unobservable (contains_eq_false_iff.1 hbound)

/-- The first name that is not bound comes after names that are. -/
theorem find?_unbound_iff {names : List String} :
    (names.find? fun name => !env.contains name) = some name ↔
      ∃ bound others, names = bound ++ name :: others ∧ (∀ w ∈ bound, ¬ env.Unbound w) ∧
        env.Unbound name := by
  simp only [List.find?_eq_some_iff_append, Bool.not_eq_true', Bool.not_not,
    ← contains_eq_false_iff, Bool.not_eq_false]
  constructor
  · rintro ⟨hname, bound, others, hnames, hbound⟩
    exact ⟨bound, others, hnames, hbound, hname⟩
  · rintro ⟨bound, others, hnames, hbound, hname⟩
    exact ⟨hname, bound, others, hnames, hbound⟩

theorem refuses_observeMany_iff {names : List String} {handler : Value} :
    env.Refuses (.observeMany names handler) e ↔ env.observeMany names handler = .error e := by
  unfold observeMany
  constructor
  · intro h
    cases h with
    | unobservableAmong hbound hname =>
      rw [find?_unbound_iff.2 ⟨_, _, rfl, hbound, hname⟩]
  · intro hrefused
    cases hmissing : names.find? fun name => !env.contains name with
    | none =>
      rw [hmissing] at hrefused
      cases hrefused
    | some missing =>
      rw [hmissing] at hrefused
      cases hrefused
      obtain ⟨bound, others, rfl, hbound, hname⟩ := find?_unbound_iff.1 hmissing
      exact .unobservableAmong hbound hname

theorem refuses_enterCall_iff :
    env.Refuses .enterCall e ↔ env.enterCall = .error e := by
  unfold enterCall
  constructor
  · intro h
    cases h with
    | uncounted h => rw [if_neg (Nat.not_lt.2 h)]
  · intro h
    split at h
    · cases h
    · rename_i hd
      cases h
      exact .uncounted (Nat.le_of_not_lt hd)

theorem refuses_beginCall_iff {f : Function} {self : Value} :
    env.Refuses (.beginCall f self) e ↔ env.beginCall f self = .error e := by
  rw [beginCall_eq]
  constructor
  · intro h
    cases h with
    | unstarted h => rw [if_neg (Nat.not_lt.2 h)]
  · intro h
    split at h
    · cases h
    · rename_i hd
      cases h
      exact .unstarted (Nat.le_of_not_lt hd)

/-- Operations are refused for the listed reasons and for no others. -/
theorem WellFormed.perform_eq_error_iff (h : env.WellFormed) {op : Operation} :
    env.perform op = .error e ↔ env.Refuses op e := by
  cases op with
  | declare mode name value span => exact h.refuses_declare_iff.symm
  | assign name value =>
    show (env.assign name value).map Prod.fst = .error e ↔ _
    rw [refuses_assign_iff]
    cases env.assign name value <;> simp [Except.map]
  | observe name handler => exact refuses_observe_iff.symm
  | observeMany names handler => exact refuses_observeMany_iff.symm
  | enterCall => exact refuses_enterCall_iff.symm
  | beginCall f self => exact refuses_beginCall_iff.symm
  | pushBlock | pop | pushCall | popCall | exitCall | endCall | define | setLocal | clear =>
    constructor <;> intro h <;> cases h

end Refuses

/-- An operation that is refused changes nothing. In every environment that a host can bring about,
an operation in place is refused exactly for the reasons listed in `Refuses`, and the environment is
then as it was before. Otherwise it does what the operation does. -/
theorem refused_operations_change_nothing (maxCallDepth : Nat) (ops : List Operation)
    (hops : ∀ op ∈ ops, op.Calls WellFormed.snapshots) (op : Operation) :
    let env := afterAll { maxCallDepth := maxCallDepth } ops
    (∀ e env', op.inPlace env = .error e env' ↔ env.Refuses op e ∧ env' = env) ∧
      ∀ env', op.inPlace env = .ok () env' ↔ env.perform op = .ok env' := by
  have hstart : WellFormed { maxCallDepth := maxCallDepth } :=
    WellFormed.of_global List.nodup_nil (Nat.zero_le _)
  intro env
  have henv : env.WellFormed := hstart.steps (afterAll_steps hops)
  rw [inPlace_eq]
  simp only [← henv.perform_eq_error_iff]
  cases env.perform op with
  | ok done => simp [settle, Except.map]
  | error refusal => simp [settle, Except.map, eq_comm]

/-- A constant and a variable, and in a call up to the limit another variable and a block. -/
def busyOperations : List Operation :=
  [.declare .immutable "k" .null none, .declare .blockMutable "a" .null none,
    .beginCall capturing .null, .declare .mutable "v" .null none, .pushBlock]

/-- Of three names the middle one is not bound, and the first does not get the handler. In the block
`var` would declare in the scope of the call. -/
theorem refused_operations_change_nothing_busyOperations :
    let env := afterAll { maxCallDepth := 1 } busyOperations
    (∀ op ∈ busyOperations, op.Calls WellFormed.snapshots) ∧
      (Operation.observeMany ["a", "b", "k"] .null).inPlace env = .error (.unobservable "b") env ∧
      (Operation.declare .mutable "v" .null none).inPlace env = .error (.duplicate "v") env ∧
      (Operation.assign "k" .null).inPlace env = .error (.immutable "k") env ∧
      (Operation.beginCall capturing .null).inPlace env = .error (.stackOverflow 1 1) env := by
  intro env
  have hops : ∀ op ∈ busyOperations, op.Calls WellFormed.snapshots := by
    simp [busyOperations, Operation.Calls, WellFormed.snapshots, capturing, OrderedMap.keys]
  have hrefused : ∀ op e, env.Refuses op e → op.inPlace env = .error e env := fun op e h =>
    ((refused_operations_change_nothing 1 busyOperations hops op).1 e env).2 ⟨h, rfl⟩
  refine ⟨hops, hrefused _ _ ?_, hrefused _ _ ?_, hrefused _ _ ?_, hrefused _ _ ?_⟩
  · show env.Refuses (.observeMany (["a"] ++ "b" :: ["k"]) .null) _
    have hbound : ∀ w ∈ ["a"], ¬ env.Unbound w := by
      unfold Unbound
      decide +kernel
    exact .unobservableAmong hbound (by unfold Unbound; decide +kernel)
  · have hchain : env.chain = [3] ++ 2 :: [1, 0] := by decide +kernel
    have hcall : env.DeclaresIn .mutable 2 :=
      .nearest hchain (by decide +kernel) (by decide +kernel)
    exact .duplicate hcall (by decide +kernel)
  · have hglobal : env.FirstBinds "k" 0 { mode := .immutable, value := .null } :=
      ⟨[3, 2, 1], [], by decide +kernel, by decide +kernel, by decide +kernel⟩
    exact .immutable hglobal rfl
  · exact .unstarted (by decide +kernel)

end Environment

end ReactiveScript
