import ReactiveScript.Proofs.Footprint

/-!
# What lookups see

A lookup does not see where a scope stands, and it does not see the scopes off the chain. All that
it sees are the contents of the scopes on the chain, the *frames* of an environment. Environments
with the same frames are alike: they answer all lookups alike, and they are still alike after the
same change of a variable, after the same declaration, and inside and after blocks and calls. If no
more than the global scope is the same, they are alike inside calls at least.
-/

namespace ReactiveScript

/-- A scope without its parent. -/
def Scope.contents (s : Scope) : ScopeKind × OrderedMap Binding := (s.kind, s.bindings)

namespace Environment

variable {env env' : Environment} {i j k : Nat}

/-- The contents of the scopes that lookups visit, in order. -/
def frames (env : Environment) : List (ScopeKind × OrderedMap Binding) :=
  env.chain.map fun i => (env.scope i).contents

theorem length_frames (env : Environment) : env.frames.length = env.chain.length :=
  List.length_map _

theorem getElem?_frames (env : Environment) (k : Nat) :
    env.frames[k]? = env.chain[k]?.map fun i => (env.scope i).contents :=
  List.getElem?_map

/-! ## Lookups in frames -/

theorem get?_eq (env : Environment) (name : String) :
    env.get? name =
      (env.frames.findSome? fun c => OrderedMap.find? c.2 name).map (·.value) := by
  unfold get? resolve? frames
  rw [List.findSome?_map]
  rfl

theorem capture_eq (env : Environment) :
    env.capture = (env.frames.foldl (fun seen c => addVisible seen c.2) []).map fun entry =>
      (entry.1, { value := entry.2.value, mode := entry.2.mode }) := by
  unfold capture visible frames
  rw [List.foldl_map]
  rfl

/-- A search for a scope is a search for a frame. -/
theorem find?_chain (env : Environment) (p : ScopeKind × OrderedMap Binding → Bool) :
    (env.chain.find? fun i => p (env.scope i).contents) = env.chain[env.frames.findIdx p]? := by
  rw [List.find?_eq_getElem?_findIdx, frames, List.findIdx_map]
  rfl

/-- A change of a scope on the chain is a change of its frame. -/
theorem frames_modifyScope (h : env.Linked) (hk : env.chain[k]? = some i)
    (f : OrderedMap Binding → OrderedMap Binding) :
    (env.modifyScope i f).frames = env.frames.modify k fun c => (c.1, f c.2) := by
  have hlt : i < env.depth := h.lt_of_mem_chain (List.mem_of_getElem? hk)
  have hchain : (env.modifyScope i f).chain = env.chain := (SameShape.modifyScope env i f).chain
  refine List.ext_getElem? fun l => ?_
  rw [List.getElem?_modify, getElem?_frames, getElem?_frames, hchain]
  cases hl : env.chain[l]? with
  | none => rfl
  | some j =>
    by_cases hkl : k = l
    · subst hkl
      obtain rfl : i = j := Option.some.inj (hk.symm.trans hl)
      simp [scope_modifyScope_self hlt, Scope.contents]
    · -- The chain meets no scope twice.
      have hij : j ≠ i := by
        rintro rfl
        exact hkl ((List.getElem?_inj (List.getElem?_eq_some_iff.1 hk).1 h.chain_nodup).1
          (hk.trans hl.symm))
      simp [scope_modifyScope_ne hij, hkl]

/-! ## Environments that look the same -/

/-- Environments with the same frames. -/
structure Alike (env env' : Environment) : Prop where
  linked : env.Linked
  linked' : env'.Linked
  frames : env'.frames = env.frames
  callDepth : env'.callDepth = env.callDepth
  maxCallDepth : env'.maxCallDepth = env.maxCallDepth

/-- Scopes that stand at the same place of their chains. -/
def SameSlot (env env' : Environment) (i j : Nat) : Prop :=
  ∃ k : Nat, env.chain[k]? = some i ∧ env'.chain[k]? = some j

/-- If the same search in both environments ends at scopes that correspond, or if it fails in both
and the global scopes correspond, then `var` declares in scopes that correspond. -/
theorem varScope_corresponds {Slot : Nat → Nat → Prop} (h : env.Linked) (h' : env'.Linked)
    (hzero : Slot 0 0)
    (hfind : ((env.chain.find? fun i => takesVars (env.scope i)) = none ∧
        (env'.chain.find? fun i => takesVars (env'.scope i)) = none) ∨
      ∃ i j, (env.chain.find? fun i => takesVars (env.scope i)) = some i ∧
        (env'.chain.find? fun i => takesVars (env'.scope i)) = some j ∧ Slot i j) :
    Slot env.varScope env'.varScope := by
  obtain ⟨inner, hinner⟩ := h.chain_eq_append
  obtain ⟨inner', hinner'⟩ := h'.chain_eq_append
  have hlast : env.chain.getLastD 0 = 0 := by rw [hinner, List.getLastD_concat]
  have hlast' : env'.chain.getLastD 0 = 0 := by rw [hinner', List.getLastD_concat]
  unfold Environment.varScope
  rcases hfind with ⟨hi, hj⟩ | ⟨i, j, hi, hj, hslot⟩
  · rw [hi, hj, hlast, hlast']
    exact hzero
  · rw [hi, hj]
    exact hslot

/-- Both are refused for the same reason, or both succeed with related results. -/
inductive SameResult {α : Type} (V : α → α → Prop) :
    Except BindingError α → Except BindingError α → Prop where
  | ok {a a' : α} (h : V a a') : SameResult V (.ok a) (.ok a')
  | error (e : BindingError) : SameResult V (.error e) (.error e)

/-- A relation between environments in which names refer to scopes that correspond, and these hold
the same. The same change of corresponding scopes keeps the relation. -/
structure Matching (V : Environment → Environment → Prop)
    (Slot : Environment → Environment → Nat → Nat → Prop) : Prop where
  position? {env env' : Environment} : V env env' → ∀ name,
    (env.position? name = none ∧ env'.position? name = none) ∨
    ∃ i j, env.position? name = some i ∧ env'.position? name = some j ∧ Slot env env' i j
  bindings {env env' : Environment} {i j : Nat} : V env env' → Slot env env' i j →
    (env'.scope j).bindings = (env.scope i).bindings
  modifyScope {env env' : Environment} {i j : Nat} : V env env' → Slot env env' i j →
    ∀ f, V (env.modifyScope i f) (env'.modifyScope j f)

namespace Matching

variable {V : Environment → Environment → Prop}
  {Slot : Environment → Environment → Nat → Nat → Prop} {env env' : Environment}

theorem contains (hV : Matching V Slot) (h : V env env') (name : String) :
    env'.contains name = env.contains name := by
  unfold Environment.contains
  rcases hV.position? h name with ⟨hnone, hnone'⟩ | ⟨i, j, hi, hj, -⟩
  · rw [hnone, hnone']
  · rw [hi, hj]
    rfl

theorem modifyBinding (hV : Matching V Slot) (h : V env env') (name : String)
    (f : Binding → Binding) : V (env.modifyBinding name f) (env'.modifyBinding name f) := by
  unfold Environment.modifyBinding
  rcases hV.position? h name with ⟨hnone, hnone'⟩ | ⟨i, j, hi, hj, hslot⟩
  · rw [hnone, hnone']
    exact h
  · rw [hi, hj]
    exact hV.modifyScope h hslot _

theorem foldl_modifyBinding (hV : Matching V Slot) (f : Binding → Binding) (names : List String)
    (h : V env env') :
    V (names.foldl (fun env name => env.modifyBinding name f) env)
      (names.foldl (fun env name => env.modifyBinding name f) env') := by
  induction names generalizing env env' with
  | nil => exact h
  | cons name names ih => exact ih (hV.modifyBinding h name f)

theorem assign (hV : Matching V Slot) (h : V env env') (name : String) (v : Value) :
    SameResult (fun r r' => V r.1 r'.1 ∧ r'.2 = r.2) (env.assign name v) (env'.assign name v) := by
  unfold Environment.assign
  rcases hV.position? h name with ⟨hnone, hnone'⟩ | ⟨i, j, hi, hj, hslot⟩
  · rw [hnone, hnone']
    exact .error _
  · rw [hi, hj]
    dsimp only
    rw [hV.bindings h hslot]
    split
    · exact .error _
    · split
      · exact .error _
      · split
        · exact .ok ⟨h, rfl⟩
        · have hassigned := hV.modifyScope h hslot fun bindings =>
            OrderedMap.adjust bindings name fun b => { b with value := v }
          exact .ok ⟨hassigned, rfl⟩

theorem register (hV : Matching V Slot) (h : V env env') (targets : List String)
    (handler : Value) :
    SameResult V (Rule.register targets handler env) (Rule.register targets handler env') := by
  unfold Rule.register
  split
  · unfold observe
    rw [hV.contains h]
    split
    · exact .ok (hV.modifyBinding h _ _)
    · exact .error _
  · unfold observeMany
    simp only [hV.contains h]
    split
    · exact .error _
    · exact .ok (hV.foldl_modifyBinding _ targets h)

/-- A declaration, if the scopes in which it declares correspond. -/
theorem declare (hV : Matching V Slot) (h : V env env') {mode : Mode}
    (hslot : Slot env env' (env.declarationScope mode) (env'.declarationScope mode))
    (name : String) (v : Value) (span : Option Span) :
    SameResult V (env.declare mode name v span) (env'.declare mode name v span) := by
  unfold Environment.declare
  dsimp only
  rw [hV.bindings h hslot]
  split
  · exact .error _
  · exact .ok (hV.modifyScope h hslot _)

end Matching

namespace Alike

theorem get? (h : Alike env env') (name : String) : env'.get? name = env.get? name := by
  rw [get?_eq, get?_eq, h.frames]

theorem capture (h : Alike env env') : env'.capture = env.capture := by
  rw [capture_eq, capture_eq, h.frames]

theorem length_chain (h : Alike env env') : env'.chain.length = env.chain.length := by
  rw [← length_frames, ← length_frames, h.frames]

/-- Scopes at the same place hold the same. -/
theorem contents (h : Alike env env') (hslot : SameSlot env env' i j) :
    (env'.scope j).contents = (env.scope i).contents := by
  obtain ⟨k, hi, hj⟩ := hslot
  have hframe : env'.frames[k]? = env.frames[k]? := by rw [h.frames]
  rw [getElem?_frames, getElem?_frames, hi, hj] at hframe
  exact Option.some.inj hframe

theorem bindings (h : Alike env env') (hslot : SameSlot env env' i j) :
    (env'.scope j).bindings = (env.scope i).bindings :=
  congrArg Prod.snd (h.contents hslot)

/-- A search finds scopes at the same place, or none. -/
theorem find? (h : Alike env env') (p : ScopeKind × OrderedMap Binding → Bool) :
    ((env.chain.find? fun i => p (env.scope i).contents) = none ∧
      (env'.chain.find? fun i => p (env'.scope i).contents) = none) ∨
    ∃ i j, (env.chain.find? fun i => p (env.scope i).contents) = some i ∧
      (env'.chain.find? fun i => p (env'.scope i).contents) = some j ∧ SameSlot env env' i j := by
  rw [find?_chain, find?_chain, h.frames]
  generalize env.frames.findIdx p = k
  by_cases hk : k < env.chain.length
  · have hk' : k < env'.chain.length := by rw [h.length_chain]; exact hk
    have hi := List.getElem?_eq_getElem hk
    have hj := List.getElem?_eq_getElem hk'
    exact Or.inr ⟨_, _, hi, hj, k, hi, hj⟩
  · have hle := Nat.le_of_not_lt hk
    refine Or.inl ⟨List.getElem?_eq_none hle, List.getElem?_eq_none ?_⟩
    rw [h.length_chain]
    exact hle

theorem position? (h : Alike env env') (name : String) :
    (env.position? name = none ∧ env'.position? name = none) ∨
    ∃ i j, env.position? name = some i ∧ env'.position? name = some j ∧
      SameSlot env env' i j :=
  h.find? fun c => OrderedMap.has c.2 name

theorem current (h : Alike env env') : SameSlot env env' env.current env'.current := by
  have hfirst : ∀ env : Environment, env.Linked → env.chain[0]? = some env.current := by
    intro env henv
    rw [chain_eq_chainAt henv, chainAt, chainFrom_succ]
    rfl
  exact ⟨0, hfirst env h.linked, hfirst env' h.linked'⟩

/-- The global scopes are the last ones of their chains. -/
theorem zero (h : Alike env env') : SameSlot env env' 0 0 := by
  obtain ⟨inner, hinner⟩ := h.linked.chain_eq_append
  obtain ⟨inner', hinner'⟩ := h.linked'.chain_eq_append
  have hlength : inner'.length = inner.length := by
    have := h.length_chain
    rw [hinner, hinner', List.length_append, List.length_append] at this
    exact Nat.add_right_cancel this
  refine ⟨inner.length, ?_, ?_⟩
  · rw [hinner]
    exact List.getElem?_concat_length
  · rw [hinner', ← hlength]
    exact List.getElem?_concat_length

theorem varScope (h : Alike env env') : SameSlot env env' env.varScope env'.varScope :=
  varScope_corresponds h.linked h.linked' h.zero
    (h.find? fun c => c.1 == .function || c.1 == .global)

theorem declarationScope (h : Alike env env') (mode : Mode) :
    SameSlot env env' (env.declarationScope mode) (env'.declarationScope mode) := by
  unfold Environment.declarationScope
  split
  · exact h.varScope
  · exact h.current

/-- The same change of scopes at the same place. -/
theorem modifyScope (h : Alike env env') (hslot : SameSlot env env' i j)
    (f : OrderedMap Binding → OrderedMap Binding) :
    Alike (env.modifyScope i f) (env'.modifyScope j f) where
  linked := (SameShape.modifyScope env i f).linked h.linked
  linked' := (SameShape.modifyScope env' j f).linked h.linked'
  frames := by
    obtain ⟨k, hi, hj⟩ := hslot
    rw [frames_modifyScope h.linked hi, frames_modifyScope h.linked' hj, h.frames]
  callDepth := h.callDepth
  maxCallDepth := h.maxCallDepth

/-! ### Changes of visible variables -/

theorem matching : Matching Alike SameSlot where
  position? := position?
  bindings := bindings
  modifyScope := modifyScope

theorem assign (h : Alike env env') (name : String) (v : Value) :
    SameResult (fun r r' => Alike r.1 r'.1 ∧ r'.2 = r.2) (env.assign name v)
      (env'.assign name v) :=
  matching.assign h name v

theorem register (h : Alike env env') (targets : List String) (handler : Value) :
    SameResult Alike (Rule.register targets handler env) (Rule.register targets handler env') :=
  matching.register h targets handler

theorem declare (h : Alike env env') (mode : Mode) (name : String) (v : Value)
    (span : Option Span) :
    SameResult Alike (env.declare mode name v span) (env'.declare mode name v span) :=
  matching.declare h (h.declarationScope mode) name v span

theorem define (h : Alike env env') (name : String) (v : Value) (mode : Mode) :
    Alike (env.define name v mode) (env'.define name v mode) := by
  unfold Environment.define
  exact h.modifyScope h.current _

theorem setLocal (h : Alike env env') (name : String) (v : Value) :
    Alike (env.setLocal name v) (env'.setLocal name v) := by
  unfold Environment.setLocal
  exact h.modifyScope h.current _

end Alike

/-! ### Blocks -/

theorem frames_pushBlock (h : env.Linked) : env.pushBlock.frames = (.block, []) :: env.frames := by
  unfold frames
  rw [chain_pushBlock h, List.map_cons, scope_pushBlock_self]
  congr 1
  refine List.map_congr_left fun i hi => ?_
  rw [scope_pushBlock_of_lt (h.lt_of_mem_chain hi)]

/-- A block that is left takes its frame along. -/
theorem frames_pop (h : env.Linked) (hshape : env.pushBlock.SameShape env') :
    env'.pop.frames = env'.frames.tail := by
  have hdepth : env'.depth = env.depth + 1 := by rw [hshape.depth, depth_pushBlock]
  unfold frames
  rw [(hshape.pop h.nonempty).chain, hshape.chain, chain_pushBlock h, List.map_cons, List.tail_cons]
  refine List.map_congr_left fun i hi => ?_
  have hlt := h.lt_of_mem_chain hi
  rw [scope_pop_of_lt (by omega)]

theorem Alike.pushBlock (h : Alike env env') : Alike env.pushBlock env'.pushBlock where
  linked := h.linked.pushBlock
  linked' := h.linked'.pushBlock
  frames := by rw [frames_pushBlock h.linked, frames_pushBlock h.linked', h.frames]
  callDepth := h.callDepth
  maxCallDepth := h.maxCallDepth

theorem Alike.pop {env₁ env₁' : Environment} (h : Alike env env')
    (hshape : env.pushBlock.SameShape env₁) (hshape' : env'.pushBlock.SameShape env₁')
    (h₁ : Alike env₁ env₁') : Alike env₁.pop env₁'.pop where
  linked := (hshape.pop h.linked.nonempty).linked h.linked
  linked' := (hshape'.pop h.linked'.nonempty).linked h.linked'
  frames := by rw [frames_pop h.linked hshape, frames_pop h.linked' hshape', h₁.frames]
  callDepth := by rw [callDepth_pop, callDepth_pop, h₁.callDepth]
  maxCallDepth := by rw [maxCallDepth_pop, maxCallDepth_pop, h₁.maxCallDepth]

/-! ## Environments with the same global scope -/

/-- Environments that agree in the global scope. -/
structure SameGlobal (env env' : Environment) : Prop where
  linked : env.Linked
  linked' : env'.Linked
  global : env'.scope 0 = env.scope 0
  callDepth : env'.callDepth = env.callDepth
  maxCallDepth : env'.maxCallDepth = env.maxCallDepth

/-- The global scope has no parent, so that it is known by what it holds. -/
theorem scope_zero_eq (h : env.Linked) (h' : env'.Linked)
    (hcontents : (env'.scope 0).contents = (env.scope 0).contents) :
    env'.scope 0 = env.scope 0 := by
  have hparent : (env'.scope 0).parent = (env.scope 0).parent := by
    rw [h.global, h'.global]
  exact Scope.ext (congrArg Prod.fst hcontents) hparent (congrArg Prod.snd hcontents)

theorem Alike.sameGlobal (h : Alike env env') : SameGlobal env env' where
  linked := h.linked
  linked' := h.linked'
  global := scope_zero_eq h.linked h.linked' (h.contents h.zero)
  callDepth := h.callDepth
  maxCallDepth := h.maxCallDepth

section Call

variable {f : Function} {self : Value} {env₁ env₁' env₂ env₂' : Environment}

theorem frames_beginCall (h : env.Linked) (hcall : env.beginCall f self = .ok env₁) :
    env₁.frames =
      [(.function, []), (.closure, closureBindings f self), (env.scope 0).contents] := by
  unfold frames
  rw [chain_beginCall h hcall, List.map_cons, List.map_cons, List.map_cons, List.map_nil,
    scope_beginCall_function hcall, scope_beginCall_closure hcall,
    scope_beginCall_of_lt hcall h.nonempty]
  rfl

/-- Inside of a call nothing shows which scopes its caller has. -/
theorem SameGlobal.beginCall (h : SameGlobal env env') (f : Function) (self : Value) :
    SameResult Alike (env.beginCall f self) (env'.beginCall f self) := by
  by_cases hd : env.callDepth < env.maxCallDepth
  · have hd' : env'.callDepth < env'.maxCallDepth := by rw [h.callDepth, h.maxCallDepth]; exact hd
    have hcall := (beginCall_eq env f self).trans (if_pos hd)
    have hcall' := (beginCall_eq env' f self).trans (if_pos hd')
    rw [hcall, hcall']
    refine .ok ⟨h.linked.beginCall hcall, h.linked'.beginCall hcall', ?_, ?_, ?_⟩
    · rw [frames_beginCall h.linked hcall, frames_beginCall h.linked' hcall', h.global]
    · rw [callDepth_beginCall hcall, callDepth_beginCall hcall', h.callDepth]
    · rw [maxCallDepth_beginCall hcall, maxCallDepth_beginCall hcall', h.maxCallDepth]
  · rw [beginCall_eq, beginCall_eq, h.callDepth, h.maxCallDepth, if_neg hd, if_neg hd]
    exact .error _

/-- After a call the global scope is what the call saw last. -/
theorem global_endCall (h : env.Linked) (hcall : env.beginCall f self = .ok env₁)
    (hshape : env₁.SameShape env₂) : env₂.endCall.scope 0 = env₂.scope 0 := by
  have hpos := h.nonempty
  have hdepth : env₂.depth = env.depth + 2 := by rw [hshape.depth, depth_beginCall hcall]
  rw [scope_endCall_of_lt (by omega)]

theorem SameGlobal.endCall (h : SameGlobal env env') (hcall : env.beginCall f self = .ok env₁)
    (hcall' : env'.beginCall f self = .ok env₁') (hshape : env₁.SameShape env₂)
    (hshape' : env₁'.SameShape env₂') (h₂ : Alike env₂ env₂') :
    SameGlobal env₂.endCall env₂'.endCall where
  linked := (hshape.endCall h.linked.nonempty hcall).linked h.linked
  linked' := (hshape'.endCall h.linked'.nonempty hcall').linked h.linked'
  global := by
    rw [global_endCall h.linked hcall hshape, global_endCall h.linked' hcall' hshape']
    exact h₂.sameGlobal.global
  callDepth := by rw [callDepth_endCall, callDepth_endCall, h₂.callDepth]
  maxCallDepth := by rw [maxCallDepth_endCall, maxCallDepth_endCall, h₂.maxCallDepth]

/-- A call changes the last frame only. -/
theorem Footprint.frames_eq (h : env.Linked) (hcall : Footprint .call env env₁) :
    env₁.frames = env.frames.dropLast ++ [(env₁.scope 0).contents] := by
  obtain ⟨inner, hinner⟩ := h.chain_eq_append
  have hnodup := h.chain_nodup
  rw [hinner] at hnodup
  have hzero : ∀ i ∈ inner, i ≠ 0 := by
    intro i hi
    exact (List.nodup_append.1 hnodup).2.2 i hi 0 (List.mem_singleton.2 rfl)
  unfold frames
  rw [hcall.chain, hinner, List.map_append, List.map_append, List.map_singleton,
    List.map_singleton, List.dropLast_concat]
  congr 1
  refine List.map_congr_left fun i hi => ?_
  rw [hcall.scope_of_ne (hzero i hi)]

/-- Where environments were alike, they are alike after calls that left the same global scope. -/
theorem Alike.ofCall (h : Alike env env') (hcall : Footprint .call env env₁)
    (hcall' : Footprint .call env' env₁') (h₁ : SameGlobal env₁ env₁') : Alike env₁ env₁' where
  linked := h₁.linked
  linked' := h₁.linked'
  frames := by
    rw [hcall.frames_eq h.linked, hcall'.frames_eq h.linked', h.frames, h₁.global]
  callDepth := h₁.callDepth
  maxCallDepth := h₁.maxCallDepth

end Call

end Environment

end ReactiveScript
