import ReactiveScript.Environment.Basic

/-!
# Scopes after an operation

What entering, leaving and changing scopes does to the scope at each index, and what an assignment
or a declaration that succeeds has changed. The rest of the theory of environments uses these facts
and does not look at the array of scopes.
-/

namespace ReactiveScript

attribute [ext] Scope

namespace Environment

variable {env env' : Environment} {i j : Nat}

theorem scope_eq (env : Environment) (i : Nat) :
    env.scope i = env.scopes[i]?.getD Scope.global :=
  Array.getD_eq_getD_getElem?

/-! ## Changing a scope -/

@[simp]
theorem depth_modifyScope (env : Environment) (i : Nat)
    (f : OrderedMap Binding → OrderedMap Binding) : (env.modifyScope i f).depth = env.depth := by
  simp [depth, modifyScope]

theorem scope_modifyScope_ne {f : OrderedMap Binding → OrderedMap Binding} (h : j ≠ i) :
    (env.modifyScope i f).scope j = env.scope j := by
  simp [scope, modifyScope, Array.getElem?_modify, Ne.symm h]

theorem scope_modifyScope_self {f : OrderedMap Binding → OrderedMap Binding}
    (h : i < env.depth) :
    (env.modifyScope i f).scope i = { env.scope i with bindings := f (env.scope i).bindings } := by
  have hi : i < env.scopes.size := h
  simp only [scope_eq, modifyScope, Array.getElem?_modify, Array.getElem?_eq_getElem hi, if_true,
    Option.map_some, Option.getD_some]

/-- Beyond the innermost scope there is nothing to change. -/
theorem scope_of_le (h : env.depth ≤ i) : env.scope i = Scope.global := by
  have hi : env.scopes.size ≤ i := h
  simp [scope, hi]

theorem scope_modifyScope_of_le {f : OrderedMap Binding → OrderedMap Binding}
    (h : env.depth ≤ j) : (env.modifyScope i f).scope j = env.scope j := by
  rw [scope_of_le h, scope_of_le (by rw [depth_modifyScope]; exact h)]

/-- The scope at an index is the old one, or it is the one that was changed. -/
theorem scope_modifyScope (env : Environment) (i j : Nat)
    (f : OrderedMap Binding → OrderedMap Binding) :
    (env.modifyScope i f).scope j = env.scope j ∨
      j = i ∧ (env.modifyScope i f).scope j =
        { env.scope i with bindings := f (env.scope i).bindings } := by
  by_cases hj : j = i
  · subst hj
    by_cases hlt : j < env.depth
    · exact Or.inr ⟨rfl, scope_modifyScope_self hlt⟩
    · exact Or.inl (scope_modifyScope_of_le (Nat.le_of_not_lt hlt))
  · exact Or.inl (scope_modifyScope_ne hj)

@[simp]
theorem kind_modifyScope (env : Environment) (i j : Nat)
    (f : OrderedMap Binding → OrderedMap Binding) :
    ((env.modifyScope i f).scope j).kind = (env.scope j).kind := by
  rcases scope_modifyScope env i j f with h | ⟨rfl, h⟩ <;> rw [h]

@[simp]
theorem parent_modifyScope (env : Environment) (i j : Nat)
    (f : OrderedMap Binding → OrderedMap Binding) :
    ((env.modifyScope i f).scope j).parent = (env.scope j).parent := by
  rcases scope_modifyScope env i j f with h | ⟨rfl, h⟩ <;> rw [h]

/-- Only the variables of the scope that is changed matter. -/
theorem modifyScope_congr {f g : OrderedMap Binding → OrderedMap Binding}
    (h : f (env.scope i).bindings = g (env.scope i).bindings) :
    env.modifyScope i f = env.modifyScope i g := by
  have hscopes : (env.scopes.modify i fun s => { s with bindings := f s.bindings }) =
      env.scopes.modify i fun s => { s with bindings := g s.bindings } := by
    refine Array.ext (by simp) fun j hj _ => ?_
    rw [Array.size_modify] at hj
    rw [Array.getElem_modify, Array.getElem_modify]
    split
    · rename_i hij
      have hscope : env.scope i = env.scopes[j] := by
        simp [scope, hij, hj]
      rw [← hscope, h]
    · rfl
  unfold modifyScope
  rw [hscopes]

/-! ## Blocks -/

@[simp]
theorem depth_pushBlock (env : Environment) : env.pushBlock.depth = env.depth + 1 := by
  simp [depth, pushBlock]

theorem scope_pushBlock_of_lt (h : i < env.depth) : env.pushBlock.scope i = env.scope i := by
  have hi : i < env.scopes.size := h
  simp [scope, pushBlock, Array.getElem?_push, Nat.ne_of_lt hi]

@[simp]
theorem scope_pushBlock_self (env : Environment) :
    env.pushBlock.scope env.depth = { kind := .block, parent := some env.current } := by
  simp [scope, pushBlock, depth]

theorem depth_pop (h : 1 < env.depth) : env.pop.depth = env.depth - 1 := by
  have h' : 1 < env.scopes.size := h
  simp [depth, pop, h']

theorem scope_pop_of_lt (h : i < env.depth - 1) : env.pop.scope i = env.scope i := by
  have h₁ : 1 < env.scopes.size := by
    have : i < env.scopes.size - 1 := h
    omega
  have h₂ : i < env.scopes.size - 1 := h
  rw [scope_eq, scope_eq, pop, if_pos h₁, Array.getElem?_pop, if_pos h₂]

@[simp]
theorem callDepth_pop (env : Environment) : env.pop.callDepth = env.callDepth := by
  unfold pop
  split <;> rfl

@[simp]
theorem maxCallDepth_pop (env : Environment) : env.pop.maxCallDepth = env.maxCallDepth := by
  unfold pop
  split <;> rfl

/-! ## Calls -/

section Call

variable {f : Function} {self : Value}

@[simp]
theorem depth_pushCall (env : Environment) (f : Function) (self : Value) :
    (env.pushCall f self).depth = env.depth + 2 := by
  simp [depth, pushCall]

theorem scope_pushCall_of_lt (h : i < env.depth) :
    (env.pushCall f self).scope i = env.scope i := by
  have hclosure : i ≠ env.scopes.size := Nat.ne_of_lt h
  have hfunction : i ≠ env.scopes.size + 1 := Nat.ne_of_lt (Nat.lt_succ_of_lt h)
  simp only [scope_eq, pushCall, Array.getElem?_push, Array.size_push, hclosure, hfunction,
    if_false]

theorem scope_pushCall_closure (env : Environment) (f : Function) (self : Value) :
    (env.pushCall f self).scope env.depth =
      { kind := .closure, parent := some 0, bindings := closureBindings f self } := by
  have hne : env.scopes.size ≠ env.scopes.size + 1 := Nat.ne_of_lt (Nat.lt_succ_self _)
  simp only [scope_eq, pushCall, depth, Array.getElem?_push, Array.size_push, hne, if_true,
    if_false, Option.getD_some]

theorem scope_pushCall_function (env : Environment) (f : Function) (self : Value) :
    (env.pushCall f self).scope (env.depth + 1) =
      { kind := .function, parent := some env.depth } := by
  simp only [scope_eq, pushCall, depth, Array.getElem?_push, Array.size_push, if_true,
    Option.getD_some, Nat.add_sub_cancel]

theorem beginCall_eq (env : Environment) (f : Function) (self : Value) :
    env.beginCall f self =
      if env.callDepth < env.maxCallDepth then
        .ok ({ env with callDepth := env.callDepth + 1 }.pushCall f self)
      else .error (.stackOverflow env.callDepth env.maxCallDepth) := by
  unfold beginCall enterCall
  by_cases hd : env.callDepth < env.maxCallDepth
  · rw [if_pos hd, if_pos hd]
  · rw [if_neg hd, if_neg hd]

/-- A call that starts is counted and has entered its two scopes. -/
theorem beginCall_ok (h : env.beginCall f self = .ok env') :
    env.callDepth < env.maxCallDepth ∧
      env' = { env with callDepth := env.callDepth + 1 }.pushCall f self := by
  rw [beginCall_eq] at h
  split at h
  · rename_i hd
    cases h
    exact ⟨hd, rfl⟩
  · cases h

theorem depth_beginCall (h : env.beginCall f self = .ok env') : env'.depth = env.depth + 2 := by
  obtain ⟨-, rfl⟩ := beginCall_ok h
  rw [depth_pushCall]
  rfl

theorem callDepth_beginCall (h : env.beginCall f self = .ok env') :
    env'.callDepth = env.callDepth + 1 := by
  obtain ⟨-, rfl⟩ := beginCall_ok h
  rfl

theorem maxCallDepth_beginCall (h : env.beginCall f self = .ok env') :
    env'.maxCallDepth = env.maxCallDepth := by
  obtain ⟨-, rfl⟩ := beginCall_ok h
  rfl

theorem scope_beginCall_of_lt (h : env.beginCall f self = .ok env') (hi : i < env.depth) :
    env'.scope i = env.scope i := by
  obtain ⟨-, rfl⟩ := beginCall_ok h
  refine scope_pushCall_of_lt ?_
  exact hi

theorem scope_beginCall_closure (h : env.beginCall f self = .ok env') :
    env'.scope env.depth =
      { kind := .closure, parent := some 0, bindings := closureBindings f self } := by
  obtain ⟨-, rfl⟩ := beginCall_ok h
  exact scope_pushCall_closure { env with callDepth := env.callDepth + 1 } f self

theorem scope_beginCall_function (h : env.beginCall f self = .ok env') :
    env'.scope (env.depth + 1) = { kind := .function, parent := some env.depth } := by
  obtain ⟨-, rfl⟩ := beginCall_ok h
  exact scope_pushCall_function { env with callDepth := env.callDepth + 1 } f self

end Call

theorem depth_endCall (h : 2 < env.depth) : env.endCall.depth = env.depth - 2 := by
  show env.pop.pop.depth = env.depth - 2
  have h₁ : env.pop.depth = env.depth - 1 := depth_pop (by omega)
  rw [depth_pop (by omega), h₁]
  omega

theorem scope_endCall_of_lt (h : i < env.depth - 2) : env.endCall.scope i = env.scope i := by
  show env.pop.pop.scope i = env.scope i
  have h₁ : env.pop.depth = env.depth - 1 := depth_pop (by omega)
  rw [scope_pop_of_lt (by omega), scope_pop_of_lt (by omega)]

@[simp]
theorem callDepth_endCall (env : Environment) : env.endCall.callDepth = env.callDepth - 1 := by
  simp [endCall, exitCall, popCall]

@[simp]
theorem maxCallDepth_endCall (env : Environment) :
    env.endCall.maxCallDepth = env.maxCallDepth := by
  simp [endCall, exitCall, popCall]

/-! ## Variables -/

/-- Only scopes on the stack hold bindings. -/
theorem lt_depth_of_find? {name : String} {b : Binding}
    (hb : OrderedMap.find? (env.scope i).bindings name = some b) : i < env.depth := by
  refine Nat.lt_of_not_le fun hle => ?_
  rw [scope_of_le hle] at hb
  cases hb

/-- The binding at a position, in the form in which lookups find it. -/
theorem find?_of_position {name : String} (hi : env.position? name = some i) :
    ∃ b, OrderedMap.find? (env.scope i).bindings name = some b := by
  have hhas := List.find?_some hi
  exact Option.isSome_iff_exists.1 hhas

/-- An assignment that succeeds either changes nothing or sets the value of a binding that is no
constant. -/
theorem assign_ok {name : String} {v : Value} {m : Option Mutation}
    (h : env.assign name v = .ok (env', m)) :
    env' = env ∨ ∃ i b, env.position? name = some i ∧
      OrderedMap.find? (env.scope i).bindings name = some b ∧ b.mode ≠ .immutable ∧
      env' = env.modifyScope i fun bindings =>
        OrderedMap.adjust bindings name fun b => { b with value := v } := by
  unfold assign at h
  split at h
  · cases h
  · rename_i i hi
    split at h
    · cases h
    · rename_i b hb
      split at h
      · cases h
      · rename_i hm
        split at h
        · cases h
          exact Or.inl rfl
        · cases h
          refine Or.inr ⟨i, b, hi, hb, ?_, rfl⟩
          simpa [Mode.isMutable] using hm

/-- A declaration that succeeds appends a new name to its scope. -/
theorem declare_ok {mode : Mode} {name : String} {v : Value} {span : Option Span}
    (h : env.declare mode name v span = .ok env') :
    OrderedMap.has (env.scope (env.declarationScope mode)).bindings name = false ∧
      env' = env.modifyScope (env.declarationScope mode) fun bindings =>
        bindings ++ [(name, { mode := mode, value := v, span := span })] := by
  unfold declare at h
  dsimp only at h
  split at h
  · cases h
  · rename_i hhas
    cases h
    exact ⟨by simpa using hhas, rfl⟩

end Environment

end ReactiveScript
