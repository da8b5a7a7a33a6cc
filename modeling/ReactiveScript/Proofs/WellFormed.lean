import ReactiveScript.Proofs.Chain
import ReactiveScript.Proofs.MapKeys
import ReactiveScript.Proofs.Steps

/-!
# Environments under arbitrary operations

`WellFormed` is what holds of an environment after any operations in any order, balanced or not.
Every elementary step keeps it, from states that no evaluation reaches. It is what lookups rely on:
their walk along the parents stays on the stack and ends at the global scope.
-/

namespace ReactiveScript

namespace Environment

/-! ## The invariant -/

/-- The scope at an index has the kind and the parent that its place demands, and distinct names. -/
structure Placed (env : Environment) (i : Nat) : Prop where
  global_iff : (env.scope i).kind = .global ↔ i = 0
  root_iff : (env.scope i).parent = none ↔ i = 0
  parent_lt {p : Nat} : (env.scope i).parent = some p → p < i
  closure : (env.scope i).kind = .closure → (env.scope i).parent = some 0
  /-- The scope of the parameters stands on the closure that it continues. -/
  function : (env.scope i).kind = .function →
    ∃ j, i = j + 1 ∧ (env.scope i).parent = some j ∧ (env.scope j).kind = .closure
  distinct : (OrderedMap.keys (env.scope i).bindings).Nodup

/-- There is a global scope, every scope is in its place, and no more calls are active than are
allowed. -/
structure WellFormed (env : Environment) : Prop where
  nonempty : 0 < env.depth
  placed {i : Nat} : i < env.depth → env.Placed i
  callDepth_le : env.callDepth ≤ env.maxCallDepth

variable {env env' : Environment} {i j : Nat}

/-- A place is judged by the scopes up to it. -/
theorem Placed.of_eq (h : env.Placed i) (hscope : ∀ j ≤ i, env'.scope j = env.scope j) :
    env'.Placed i := by
  have hself := hscope i (Nat.le_refl i)
  refine ⟨?_, ?_, fun hp => ?_, fun hk => ?_, fun hk => ?_, ?_⟩
  · rw [hself]
    exact h.global_iff
  · rw [hself]
    exact h.root_iff
  · rw [hself] at hp
    exact h.parent_lt hp
  · rw [hself] at hk ⊢
    exact h.closure hk
  · rw [hself] at hk ⊢
    obtain ⟨j, hj, hparent, hkind⟩ := h.function hk
    refine ⟨j, hj, hparent, ?_⟩
    rw [hscope j (by omega)]
    exact hkind
  · rw [hself]
    exact h.distinct

/-- Kinds and parents stay when the variables of a scope change. -/
theorem Placed.of_sameShape (h : env.Placed i) (hshape : env.SameShape env')
    (hdistinct : (OrderedMap.keys (env'.scope i).bindings).Nodup) : env'.Placed i where
  global_iff := by
    rw [hshape.kind]
    exact h.global_iff
  root_iff := by
    rw [hshape.parent]
    exact h.root_iff
  parent_lt hp := h.parent_lt ((hshape.parent i).symm.trans hp)
  closure hk := by
    rw [hshape.parent]
    exact h.closure ((hshape.kind i).symm.trans hk)
  function hk := by
    obtain ⟨j, hj, hparent, hkind⟩ := h.function ((hshape.kind i).symm.trans hk)
    exact ⟨j, hj, (hshape.parent i).trans hparent, (hshape.kind j).trans hkind⟩
  distinct := hdistinct

theorem Placed.block {p : Nat} (hpos : p < i)
    (hscope : env.scope i = { kind := .block, parent := some p }) : env.Placed i := by
  have hne : i ≠ 0 := Nat.ne_of_gt (Nat.zero_lt_of_lt hpos)
  refine ⟨?_, ?_, fun hp => ?_, fun hk => ?_, fun hk => ?_, ?_⟩ <;> rw [hscope] at *
  · simp [hne]
  · simp [hne]
  · obtain rfl := Option.some.inj hp
    exact hpos
  · cases hk
  · cases hk
  · exact List.nodup_nil

theorem Placed.closureScope {bindings : OrderedMap Binding} (hpos : 0 < i)
    (hdistinct : (OrderedMap.keys bindings).Nodup)
    (hscope : env.scope i = { kind := .closure, parent := some 0, bindings }) :
    env.Placed i := by
  have hne : i ≠ 0 := Nat.ne_of_gt hpos
  refine ⟨?_, ?_, fun hp => ?_, fun _ => ?_, fun hk => ?_, ?_⟩ <;> rw [hscope] at *
  · simp [hne]
  · simp [hne]
  · obtain rfl := Option.some.inj hp
    exact hpos
  · cases hk
  · exact hdistinct

theorem Placed.functionScope (hscope : env.scope (j + 1) = { kind := .function, parent := some j })
    (hclosure : (env.scope j).kind = .closure) : env.Placed (j + 1) := by
  refine ⟨?_, ?_, fun hp => ?_, fun hk => ?_, fun _ => ?_, ?_⟩ <;> rw [hscope] at *
  · simp
  · simp
  · obtain rfl := Option.some.inj hp
    exact Nat.lt_succ_self _
  · cases hk
  · exact ⟨j, rfl, rfl, hclosure⟩
  · exact List.nodup_nil

namespace WellFormed

theorem linked (h : env.WellFormed) : env.Linked := by
  refine env.linked_iff.2 ⟨h.nonempty, fun i hi => ⟨fun p hp => (h.placed hi).parent_lt hp, ?_⟩⟩
  intro hpos hroot
  have hzero := (h.placed hi).root_iff.1 hroot
  omega

/-- An environment that holds the global scope alone. -/
theorem of_global {bindings : OrderedMap Binding} {callDepth maxCallDepth : Nat}
    (hdistinct : (OrderedMap.keys bindings).Nodup) (hcalls : callDepth ≤ maxCallDepth) :
    WellFormed ⟨#[{ kind := .global, parent := none, bindings }], callDepth, maxCallDepth⟩ where
  nonempty := Nat.one_pos
  placed {i} hi := by
    obtain rfl : i = 0 := Nat.lt_one_iff.1 hi
    exact ⟨by simp [scope], by simp [scope], by simp [scope], by simp [scope], by simp [scope],
      hdistinct⟩
  callDepth_le := hcalls

/-! ## What the operations do to it -/

theorem withCallDepth (h : env.WellFormed) {n : Nat} (hn : n ≤ env.maxCallDepth) :
    { env with callDepth := n }.WellFormed where
  nonempty := h.nonempty
  placed hi := (h.placed hi).of_eq fun _ _ => rfl
  callDepth_le := hn

theorem modifyScope (h : env.WellFormed) (i : Nat)
    {f : OrderedMap Binding → OrderedMap Binding}
    (hf : (OrderedMap.keys (env.scope i).bindings).Nodup →
      (OrderedMap.keys (f (env.scope i).bindings)).Nodup) : (env.modifyScope i f).WellFormed where
  nonempty := by
    rw [depth_modifyScope]
    exact h.nonempty
  placed {j} hj := by
    rw [depth_modifyScope] at hj
    refine (h.placed hj).of_sameShape (SameShape.modifyScope env i f) ?_
    rcases scope_modifyScope env i j f with hscope | ⟨rfl, hscope⟩ <;> rw [hscope]
    · exact (h.placed hj).distinct
    · exact hf (h.placed hj).distinct
  callDepth_le := h.callDepth_le

theorem pushBlock (h : env.WellFormed) : env.pushBlock.WellFormed where
  nonempty := by
    rw [depth_pushBlock]
    exact Nat.succ_pos _
  placed {i} hi := by
    rw [depth_pushBlock] at hi
    by_cases hlt : i < env.depth
    · exact (h.placed hlt).of_eq fun j hj => scope_pushBlock_of_lt (by omega)
    · obtain rfl : i = env.depth := by omega
      exact Placed.block h.linked.current_lt (scope_pushBlock_self env)
  callDepth_le := h.callDepth_le

theorem pop (h : env.WellFormed) : env.pop.WellFormed := by
  by_cases hone : 1 < env.depth
  · have hdepth := depth_pop hone
    refine ⟨by omega, fun {i} hi => ?_, ?_⟩
    · have hlt : i < env.depth - 1 := by omega
      exact (h.placed (by omega)).of_eq fun j hj => scope_pop_of_lt (by omega)
    · rw [callDepth_pop, maxCallDepth_pop]
      exact h.callDepth_le
  · have hpop : env.pop = env := if_neg hone
    rw [hpop]
    exact h

theorem distinct_closureBindings {f : Function} (hf : (OrderedMap.keys f.closure).Nodup)
    (self : Value) : (OrderedMap.keys (closureBindings f self)).Nodup := by
  have hcaptured : (OrderedMap.keys (f.closure.map fun entry =>
      (entry.1, ({ mode := entry.2.mode, value := entry.2.value } : Binding)))).Nodup := by
    rw [OrderedMap.keys_map fun c : Captured => ({ mode := c.mode, value := c.value } : Binding)]
    exact hf
  unfold closureBindings
  dsimp only
  split
  · split
    · exact hcaptured
    · exact OrderedMap.nodup_keys_put hcaptured _ _
  · exact hcaptured

theorem pushCall (h : env.WellFormed) {f : Function} (hf : (OrderedMap.keys f.closure).Nodup)
    (self : Value) : (env.pushCall f self).WellFormed where
  nonempty := by
    rw [depth_pushCall]
    exact Nat.succ_pos _
  placed {i} hi := by
    rw [depth_pushCall] at hi
    have hclosure := scope_pushCall_closure env f self
    have hfunction := scope_pushCall_function env f self
    rcases Nat.lt_trichotomy i env.depth with hlt | rfl | hgt
    · exact (h.placed hlt).of_eq fun j hj => scope_pushCall_of_lt (by omega)
    · exact Placed.closureScope h.nonempty (distinct_closureBindings hf self) hclosure
    · obtain rfl : i = env.depth + 1 := by omega
      exact Placed.functionScope hfunction (by rw [hclosure])
  callDepth_le := h.callDepth_le

theorem clear (env : Environment) : env.clear.WellFormed :=
  of_global List.nodup_nil (Nat.zero_le _)

/-- The functions whose closures name nothing twice, as snapshots of variables do. -/
def snapshots (f : Function) : Prop := (OrderedMap.keys f.closure).Nodup

/-- Every elementary step keeps the invariant. -/
theorem step {loss : Loss} (h : env.WellFormed) (hstep : Step snapshots env loss env') :
    env'.WellFormed := by
  cases hstep with
  | block => exact h.pushBlock
  | call self hf => exact h.pushCall hf self
  | leave => exact h.pop
  | count hn =>
    have hle := h.callDepth_le
    exact h.withCallDepth (by omega)
  | adjust i name hf =>
    refine h.modifyScope i fun hdistinct => ?_
    rw [OrderedMap.keys_adjust]
    exact hdistinct
  | append i b hnew =>
    refine h.modifyScope i fun hdistinct => ?_
    exact OrderedMap.nodup_keys_concat hdistinct (OrderedMap.not_mem_keys_of_has hnew) b
  | put name b =>
    exact h.modifyScope _ fun hdistinct => OrderedMap.nodup_keys_put hdistinct name b
  | clear => exact clear env

theorem steps (h : env.WellFormed) (hsteps : Steps snapshots env env') : env'.WellFormed := by
  induction hsteps with
  | refl => exact h
  | tail _ hlast ih =>
    obtain ⟨loss, hstep⟩ := hlast
    exact ih.step hstep

end WellFormed

/-- No elementary step changes the limit of calls. -/
theorem Step.maxCallDepth {called : Function → Prop} {loss : Loss}
    (h : Step called env loss env') : env'.maxCallDepth = env.maxCallDepth := by
  cases h with
  | leave => exact maxCallDepth_pop env
  | block | call | count | adjust | append | put | clear => rfl

theorem Steps.maxCallDepth {called : Function → Prop} (h : Steps called env env') :
    env'.maxCallDepth = env.maxCallDepth := by
  induction h with
  | refl => rfl
  | tail _ hlast ih =>
    obtain ⟨loss, hstep⟩ := hlast
    exact hstep.maxCallDepth.trans ih

/-! ## Walks along the parents -/

/-- The indices met by following parents from a scope until there is none. Every index is one of a
scope on the stack. -/
inductive Walk (env : Environment) : Nat → List Nat → Prop where
  | last {i : Nat} (hi : i < env.depth) (hroot : (env.scope i).parent = none) : Walk env i [i]
  | next {i p : Nat} {rest : List Nat} (hi : i < env.depth)
    (hparent : (env.scope i).parent = some p) (h : Walk env p rest) : Walk env i (i :: rest)

theorem Linked.walk_chainAt (h : env.Linked) (hi : i < env.depth) : env.Walk i (env.chainAt i) := by
  induction i using Nat.strong_induction_on with
  | _ i ih =>
    cases hp : (env.scope i).parent with
    | none =>
      rw [chainAt_of_none hp]
      exact .last hi hp
    | some p =>
      have hlt := h.parent_lt hp
      rw [chainAt_of_parent h hp]
      exact .next hi hp (ih p hlt (by omega))

theorem Linked.walk_chain (h : env.Linked) : env.Walk env.current env.chain := by
  rw [chain_eq_chainAt h]
  exact h.walk_chainAt h.current_lt

theorem position?_mem_chain {name : String} (h : env.position? name = some i) : i ∈ env.chain :=
  List.mem_of_find?_eq_some h

/-- The walk for `var` ends at the scope of a call or at the global scope. -/
theorem WellFormed.varScope_spec (h : env.WellFormed) :
    env.varScope ∈ env.chain ∧ takesVars (env.scope env.varScope) = true := by
  have hglobal : takesVars (env.scope 0) = true := by
    unfold takesVars
    rw [(h.placed h.nonempty).global_iff.2 rfl]
    rfl
  have hfound : (env.chain.find? fun i => takesVars (env.scope i)).isSome :=
    List.find?_isSome.2 ⟨0, h.linked.zero_mem_chain, hglobal⟩
  obtain ⟨i, hi⟩ := Option.isSome_iff_exists.1 hfound
  have hvar : env.varScope = i := by
    unfold varScope
    rw [hi]
    rfl
  have htakes := List.find?_some hi
  rw [hvar]
  exact ⟨List.mem_of_find?_eq_some hi, htakes⟩

/-! ## All that is visible -/

/-- A walk collects each name once, where it meets it first. -/
theorem keys_addVisible {seen : OrderedMap Binding} (hseen : (OrderedMap.keys seen).Nodup)
    (bindings : OrderedMap Binding) :
    (OrderedMap.keys (addVisible seen bindings)).Nodup ∧
      ∀ name, name ∈ OrderedMap.keys (addVisible seen bindings) ↔
        name ∈ OrderedMap.keys seen ∨ name ∈ OrderedMap.keys bindings := by
  induction bindings generalizing seen with
  | nil => exact ⟨hseen, fun name => by simp [addVisible]⟩
  | cons entry bindings ih =>
    obtain ⟨key, b⟩ := entry
    unfold addVisible
    cases hhas : OrderedMap.has seen key with
    | true =>
      have hmem := OrderedMap.has_iff_mem_keys.1 hhas
      obtain ⟨hnodup, hkeys⟩ := ih hseen
      refine ⟨hnodup, fun name => ?_⟩
      rw [if_pos rfl, hkeys, OrderedMap.keys_cons, List.mem_cons]
      constructor
      · rintro (h | h)
        · exact Or.inl h
        · exact Or.inr (Or.inr h)
      · rintro (h | rfl | h)
        · exact Or.inl h
        · exact Or.inl hmem
        · exact Or.inr h
    | false =>
      have hnew := OrderedMap.not_mem_keys_of_has hhas
      obtain ⟨hnodup, hkeys⟩ := ih (OrderedMap.nodup_keys_concat hseen hnew b)
      refine ⟨hnodup, fun name => ?_⟩
      rw [if_neg Bool.false_ne_true, hkeys, OrderedMap.keys_append, OrderedMap.keys_cons]
      simp [or_assoc]

/-- The visible names are those of the scopes on the chain, each of them once. -/
theorem allNames_spec (env : Environment) :
    env.allNames.Nodup ∧ ∀ name, name ∈ env.allNames ↔
      ∃ i ∈ env.chain, OrderedMap.has (env.scope i).bindings name = true := by
  have hfold : ∀ (is : List Nat) (seen : OrderedMap Binding), (OrderedMap.keys seen).Nodup →
      let all := is.foldl (fun seen i => addVisible seen (env.scope i).bindings) seen
      (OrderedMap.keys all).Nodup ∧ ∀ name, name ∈ OrderedMap.keys all ↔
        name ∈ OrderedMap.keys seen ∨
          ∃ i ∈ is, OrderedMap.has (env.scope i).bindings name = true := by
    intro is
    induction is with
    | nil => exact fun seen hseen => ⟨hseen, fun name => by simp⟩
    | cons i is ih =>
      intro seen hseen
      obtain ⟨hfirst, hmem⟩ := keys_addVisible hseen (env.scope i).bindings
      obtain ⟨hnodup, hkeys⟩ := ih _ hfirst
      refine ⟨hnodup, fun name => ?_⟩
      rw [List.foldl_cons, hkeys, hmem, List.exists_mem_cons_iff, OrderedMap.has_iff_mem_keys,
        or_assoc]
  obtain ⟨hnodup, hkeys⟩ := hfold env.chain [] List.nodup_nil
  refine ⟨hnodup, fun name => (hkeys name).trans ?_⟩
  simp

/-- A snapshot holds the visible names in their order. -/
theorem keys_capture (env : Environment) : OrderedMap.keys env.capture = env.allNames :=
  OrderedMap.keys_map (fun b : Binding => ({ value := b.value, mode := b.mode } : Captured))
    env.visible

/-- Lookups need no more than the invariant: the walk along the parents that all of them make stays
on the stack and ends at a scope without a parent. -/
structure Navigable (env : Environment) : Prop where
  walk : env.Walk env.current env.chain
  position {name : String} {i : Nat} : env.position? name = some i → i < env.depth
  varScope : env.varScope < env.depth ∧ takesVars (env.scope env.varScope) = true
  /-- The names that a walk collects are distinct. -/
  allNames : env.allNames.Nodup ∧ ∀ name, name ∈ env.allNames ↔
    ∃ i ∈ env.chain, OrderedMap.has (env.scope i).bindings name = true
  capture : OrderedMap.keys env.capture = env.allNames

theorem WellFormed.navigable (h : env.WellFormed) : env.Navigable where
  walk := h.linked.walk_chain
  position hi := h.linked.lt_of_mem_chain (position?_mem_chain hi)
  varScope := ⟨h.linked.lt_of_mem_chain h.varScope_spec.1, h.varScope_spec.2⟩
  allNames := env.allNames_spec
  capture := env.keys_capture

/-- Whatever operations a host carries out on a fresh environment, in whatever order and balanced or
not, there is a global scope, every scope has its kind, its parent and its names as its place
demands, and no more calls are active than are allowed from the start. So every walk along the
parents ends, and on the way it looks at no scope that is not there. The functions that are called
have closures without repeated names, as all snapshots have. -/
theorem operations_keep_environment_well_formed (maxCallDepth : Nat) (ops : List Operation)
    (hops : ∀ op ∈ ops, op.Calls WellFormed.snapshots) :
    let env := afterAll { maxCallDepth := maxCallDepth } ops
    env.WellFormed ∧ env.maxCallDepth = maxCallDepth ∧ env.Navigable := by
  have hsteps : Steps WellFormed.snapshots { maxCallDepth := maxCallDepth }
      (afterAll { maxCallDepth := maxCallDepth } ops) := afterAll_steps hops
  have hstart : WellFormed { maxCallDepth := maxCallDepth } :=
    WellFormed.of_global List.nodup_nil (Nat.zero_le _)
  have hend := hstart.steps hsteps
  exact ⟨hend, hsteps.maxCallDepth, hend.navigable⟩

/-- A function that captured a variable. -/
def capturing : Function where
  name := some "f"
  params := []
  body := []
  closure := [("x", { value := .null, mode := .mutable })]

/-- Operations out of order: a call is ended before any started, half of another one is left, a
block is entered on the closure that remains, and calls are entered and counted one without the
other. -/
def strayOperations : List Operation :=
  [.popCall, .beginCall capturing .null, .pop, .pushBlock, .enterCall, .pushCall capturing .null,
    .declare .mutable "x" .null none, .exitCall, .exitCall]

/-- No evaluation leaves a block on a closure. -/
theorem operations_keep_environment_well_formed_strayOperations :
    (∀ op ∈ strayOperations, op.Calls WellFormed.snapshots) ∧
      (afterAll { maxCallDepth := 1 } strayOperations).scopes.toList.map
        (fun s => (s.kind, s.parent)) = [(.global, none), (.closure, some 0), (.block, some 1),
          (.closure, some 0), (.function, some 3)] ∧
      (let env := afterAll { maxCallDepth := 1 } strayOperations
      env.WellFormed ∧ env.maxCallDepth = 1 ∧ env.Navigable) := by
  have hops : ∀ op ∈ strayOperations, op.Calls WellFormed.snapshots := by
    simp [strayOperations, Operation.Calls, WellFormed.snapshots, capturing, OrderedMap.keys]
  exact ⟨hops, by decide, operations_keep_environment_well_formed 1 strayOperations hops⟩

end Environment

end ReactiveScript
