import ReactiveScript.Proofs.LexicalScoping

/-!
# Empty blocks

An empty block scope between the scopes that lookups visit changes nothing that a program can see.
Two environments are `Padded` if the frames of the second one are those of the first one and an
empty block behind the first `p` of them. Evaluations transport this relation, with one exception:
what declares names in the innermost scope must find the same scope innermost, so that the empty
block must not be the first frame. A block has a scope of its own as its first frame, and an
expression declares nothing; for both of them it makes no difference whether they stand in a further
block.
-/

namespace ReactiveScript

namespace Environment

/-! ## Environments with one more block -/

/-- The frames of the second environment are those of the first one and an empty block behind the
first `p` of them. There are frames behind the block. -/
structure Padded (p : Nat) (env env' : Environment) : Prop where
  linked : env.Linked
  linked' : env'.Linked
  frames : ∃ inner outer, inner.length = p ∧ outer ≠ [] ∧ env.frames = inner ++ outer ∧
    env'.frames = inner ++ (.block, []) :: outer
  callDepth : env'.callDepth = env.callDepth
  maxCallDepth : env'.maxCallDepth = env.maxCallDepth

/-- Where the frame at an index stands once a frame is put behind the first `p`. -/
def shifted (p k : Nat) : Nat := if k < p then k else k + 1

/-- Scopes whose frames correspond. -/
def ShiftedSlot (p : Nat) (env env' : Environment) (i j : Nat) : Prop :=
  ∃ k : Nat, env.chain[k]? = some i ∧ env'.chain[shifted p k]? = some j

section Modify

variable {α : Type} {f : α → α} {front back : List α} {k : Nat}

theorem modify_append_of_lt (hk : k < front.length) :
    (front ++ back).modify k f = front.modify k f ++ back := by
  induction front generalizing k with
  | nil => exact absurd hk (Nat.not_lt_zero k)
  | cons a front ih =>
    cases k with
    | zero => rfl
    | succ k =>
      rw [List.cons_append, List.modify_succ_cons, List.modify_succ_cons, List.cons_append,
        ih (Nat.lt_of_succ_lt_succ hk)]

theorem modify_append_of_le (hk : front.length ≤ k) :
    (front ++ back).modify k f = front ++ back.modify (k - front.length) f := by
  obtain ⟨d, rfl⟩ := Nat.exists_eq_add_of_le hk
  rw [Nat.add_sub_cancel_left]
  exact List.modifyTailIdx_add _ _ _ _

end Modify

variable {env env' : Environment} {p i j : Nat}

namespace Padded

/-- An empty block at the place of entry. -/
theorem pushBlock_self (h : env.Linked) : Padded 0 env env.pushBlock where
  linked := h
  linked' := h.pushBlock
  frames := by
    refine ⟨[], env.frames, rfl, ?_, rfl, frames_pushBlock h⟩
    obtain ⟨inner, hinner⟩ := h.chain_eq_append
    intro hnil
    have hlength := congrArg List.length hnil
    rw [length_frames, hinner, List.length_append] at hlength
    simp at hlength
  callDepth := rfl
  maxCallDepth := rfl

theorem get? (h : Padded p env env') (name : String) : env'.get? name = env.get? name := by
  obtain ⟨inner, outer, -, -, hframes, hframes'⟩ := h.frames
  rw [get?_eq, get?_eq, hframes, hframes', List.findSome?_append, List.findSome?_append,
    List.findSome?_cons]
  rfl

theorem capture (h : Padded p env env') : env'.capture = env.capture := by
  obtain ⟨inner, outer, -, -, hframes, hframes'⟩ := h.frames
  rw [capture_eq, capture_eq, hframes, hframes', List.foldl_append, List.foldl_append,
    List.foldl_cons]
  rfl

theorem length_chain (h : Padded p env env') : env'.chain.length = env.chain.length + 1 := by
  obtain ⟨inner, outer, -, -, hframes, hframes'⟩ := h.frames
  rw [← length_frames, ← length_frames, hframes, hframes', List.length_append, List.length_append,
    List.length_cons]
  omega

theorem lt_length_chain (h : Padded p env env') : p < env.chain.length := by
  obtain ⟨inner, outer, hlength, houter, hframes, -⟩ := h.frames
  have hpos := List.length_pos_iff.2 houter
  rw [← length_frames, hframes, List.length_append]
  omega

/-- The frames correspond. -/
theorem getElem?_frames_shifted (h : Padded p env env') (k : Nat) :
    env'.frames[shifted p k]? = env.frames[k]? := by
  obtain ⟨inner, outer, rfl, -, hframes, hframes'⟩ := h.frames
  unfold shifted
  rw [hframes, hframes']
  by_cases hk : k < inner.length
  · rw [if_pos hk, List.getElem?_append_left hk, List.getElem?_append_left hk]
  · rw [if_neg hk, List.getElem?_append_right (by omega), List.getElem?_append_right (by omega),
      show k + 1 - inner.length = (k - inner.length) + 1 by omega, List.getElem?_cons_succ]

theorem contents (h : Padded p env env') (hslot : ShiftedSlot p env env' i j) :
    (env'.scope j).contents = (env.scope i).contents := by
  obtain ⟨k, hi, hj⟩ := hslot
  have hframe := h.getElem?_frames_shifted k
  rw [getElem?_frames, getElem?_frames, hi, hj] at hframe
  exact Option.some.inj hframe

/-- A search that passes over empty blocks finds frames that correspond. -/
theorem findIdx_frames (h : Padded p env env') {q : ScopeKind × OrderedMap Binding → Bool}
    (hq : q (.block, []) = false) :
    env'.frames.findIdx q = shifted p (env.frames.findIdx q) := by
  obtain ⟨inner, outer, rfl, -, hframes, hframes'⟩ := h.frames
  unfold shifted
  rw [hframes, hframes', List.findIdx_append, List.findIdx_append, List.findIdx_cons, hq]
  by_cases hinner : inner.findIdx q < inner.length
  · rw [if_pos hinner, if_pos hinner, if_pos hinner]
  · rw [if_neg hinner, if_neg hinner, if_neg (by omega)]
    simp only [cond_false]
    omega

/-- A search finds scopes that correspond, or none. -/
theorem find? (h : Padded p env env') {q : ScopeKind × OrderedMap Binding → Bool}
    (hq : q (.block, []) = false) :
    ((env.chain.find? fun i => q (env.scope i).contents) = none ∧
      (env'.chain.find? fun i => q (env'.scope i).contents) = none) ∨
    ∃ i j, (env.chain.find? fun i => q (env.scope i).contents) = some i ∧
      (env'.chain.find? fun i => q (env'.scope i).contents) = some j ∧
      ShiftedSlot p env env' i j := by
  rw [find?_chain, find?_chain, h.findIdx_frames hq]
  generalize env.frames.findIdx q = k
  have hp := h.lt_length_chain
  have hlength := h.length_chain
  by_cases hk : k < env.chain.length
  · have hk' : shifted p k < env'.chain.length := by
      unfold shifted
      split <;> omega
    have hi := List.getElem?_eq_getElem hk
    have hj := List.getElem?_eq_getElem hk'
    exact Or.inr ⟨_, _, hi, hj, k, hi, hj⟩
  · have hk' : env'.chain.length ≤ shifted p k := by
      unfold shifted
      split <;> omega
    exact Or.inl ⟨List.getElem?_eq_none (Nat.le_of_not_lt hk), List.getElem?_eq_none hk'⟩

theorem position? (h : Padded p env env') (name : String) :
    (env.position? name = none ∧ env'.position? name = none) ∨
    ∃ i j, env.position? name = some i ∧ env'.position? name = some j ∧
      ShiftedSlot p env env' i j :=
  h.find? (q := fun c => OrderedMap.has c.2 name) rfl

/-- The global scopes are the last ones of their chains. -/
theorem zero (h : Padded p env env') : ShiftedSlot p env env' 0 0 := by
  obtain ⟨inner, hinner⟩ := h.linked.chain_eq_append
  obtain ⟨inner', hinner'⟩ := h.linked'.chain_eq_append
  have hlength : inner'.length = inner.length + 1 := by
    have := h.length_chain
    rw [hinner, hinner', List.length_append, List.length_append] at this
    exact Nat.add_right_cancel this
  -- The empty block stands before the last frame.
  have hp : ¬ inner.length < p := by
    have := h.lt_length_chain
    rw [hinner, List.length_append, List.length_singleton] at this
    omega
  refine ⟨inner.length, ?_, ?_⟩
  · rw [hinner]
    exact List.getElem?_concat_length
  · rw [hinner', shifted, if_neg hp, ← hlength]
    exact List.getElem?_concat_length

/-- With frames before the empty block, the innermost scopes correspond. -/
theorem current (h : Padded p env env') (hp : 0 < p) :
    ShiftedSlot p env env' env.current env'.current := by
  refine ⟨0, ?_, ?_⟩
  · obtain ⟨outer, houter⟩ := chain_eq_cons h.linked.nonempty
    rw [houter]
    rfl
  · obtain ⟨outer, houter⟩ := chain_eq_cons h.linked'.nonempty
    rw [houter, shifted, if_pos hp]
    rfl

/-- An empty block takes no `var` declarations. -/
theorem varScope (h : Padded p env env') : ShiftedSlot p env env' env.varScope env'.varScope :=
  varScope_corresponds h.linked h.linked' h.zero
    (h.find? (q := fun c => c.1 == .function || c.1 == .global) rfl)

theorem declarationScope (h : Padded p env env') (hp : 0 < p) (mode : Mode) :
    ShiftedSlot p env env' (env.declarationScope mode) (env'.declarationScope mode) := by
  unfold Environment.declarationScope
  split
  · exact h.varScope
  · exact h.current hp

/-- The same change of scopes that correspond. -/
theorem modifyScope (h : Padded p env env') (hslot : ShiftedSlot p env env' i j)
    (f : OrderedMap Binding → OrderedMap Binding) :
    Padded p (env.modifyScope i f) (env'.modifyScope j f) where
  linked := (SameShape.modifyScope env i f).linked h.linked
  linked' := (SameShape.modifyScope env' j f).linked h.linked'
  frames := by
    obtain ⟨k, hi, hj⟩ := hslot
    obtain ⟨inner, outer, rfl, houter, hframes, hframes'⟩ := h.frames
    rw [frames_modifyScope h.linked hi, frames_modifyScope h.linked' hj, hframes, hframes']
    unfold shifted
    -- The change is made on one side of the empty block, which itself stays as it is.
    by_cases hk : k < inner.length
    · rw [if_pos hk]
      refine ⟨inner.modify k fun c => (c.1, f c.2), outer, List.length_modify .., houter, ?_, ?_⟩
      · exact modify_append_of_lt hk
      · exact modify_append_of_lt hk
    · rw [if_neg hk]
      have hle : inner.length ≤ k := Nat.le_of_not_lt hk
      refine ⟨inner, outer.modify (k - inner.length) fun c => (c.1, f c.2), rfl, ?_, ?_, ?_⟩
      · exact mt List.modify_eq_nil_iff.1 houter
      · exact modify_append_of_le hle
      · rw [modify_append_of_le (Nat.le_succ_of_le hle), Nat.succ_sub hle, List.modify_succ_cons]
  callDepth := h.callDepth
  maxCallDepth := h.maxCallDepth

theorem matching (p : Nat) : Matching (Padded p) (ShiftedSlot p) where
  position? := position?
  bindings h hslot := congrArg Prod.snd (h.contents hslot)
  modifyScope := modifyScope

theorem define (h : Padded p env env') (hp : 0 < p) (name : String) (v : Value) (mode : Mode) :
    Padded p (env.define name v mode) (env'.define name v mode) := by
  unfold Environment.define
  exact h.modifyScope (h.current hp) _

theorem setLocal (h : Padded p env env') (hp : 0 < p) (name : String) (v : Value) :
    Padded p (env.setLocal name v) (env'.setLocal name v) := by
  unfold Environment.setLocal
  exact h.modifyScope (h.current hp) _

/-! ### Blocks and calls -/

theorem pushBlock (h : Padded p env env') : Padded (p + 1) env.pushBlock env'.pushBlock where
  linked := h.linked.pushBlock
  linked' := h.linked'.pushBlock
  frames := by
    obtain ⟨inner, outer, rfl, houter, hframes, hframes'⟩ := h.frames
    refine ⟨(.block, []) :: inner, outer, List.length_cons, houter, ?_, ?_⟩
    · rw [frames_pushBlock h.linked, hframes, List.cons_append]
    · rw [frames_pushBlock h.linked', hframes', List.cons_append]
  callDepth := h.callDepth
  maxCallDepth := h.maxCallDepth

theorem pop {env₁ env₁' : Environment} (h : Padded p env env')
    (hshape : env.pushBlock.SameShape env₁) (hshape' : env'.pushBlock.SameShape env₁')
    (h₁ : Padded (p + 1) env₁ env₁') : Padded p env₁.pop env₁'.pop where
  linked := (hshape.pop h.linked.nonempty).linked h.linked
  linked' := (hshape'.pop h.linked'.nonempty).linked h.linked'
  frames := by
    obtain ⟨inner, outer, hlength, houter, hframes, hframes'⟩ := h₁.frames
    obtain ⟨frame, inner, rfl⟩ := List.exists_cons_of_length_eq_add_one hlength
    refine ⟨inner, outer, Nat.succ.inj hlength, houter, ?_, ?_⟩
    · rw [frames_pop h.linked hshape, hframes, List.cons_append, List.tail_cons]
    · rw [frames_pop h.linked' hshape', hframes', List.cons_append, List.tail_cons]
  callDepth := by rw [callDepth_pop, callDepth_pop, h₁.callDepth]
  maxCallDepth := by rw [maxCallDepth_pop, maxCallDepth_pop, h₁.maxCallDepth]

theorem sameGlobal (h : Padded p env env') : SameGlobal env env' where
  linked := h.linked
  linked' := h.linked'
  global := scope_zero_eq h.linked h.linked' (h.contents h.zero)
  callDepth := h.callDepth
  maxCallDepth := h.maxCallDepth

/-- A call sees neither the empty block nor what stands before it. -/
theorem ofCall {env₁ env₁' : Environment} (h : Padded p env env')
    (hcall : Footprint .call env env₁) (hcall' : Footprint .call env' env₁')
    (h₁ : SameGlobal env₁ env₁') : Padded p env₁ env₁' where
  linked := h₁.linked
  linked' := h₁.linked'
  frames := by
    obtain ⟨inner, outer, hlength, houter, hframes, hframes'⟩ := h.frames
    refine ⟨inner, outer.dropLast ++ [(env₁.scope 0).contents], hlength, by simp, ?_, ?_⟩
    · rw [hcall.frames_eq h.linked, hframes, List.dropLast_append_of_ne_nil houter,
        List.append_assoc]
    · rw [hcall'.frames_eq h.linked', hframes', h₁.global,
        List.dropLast_append_of_ne_nil (List.cons_ne_nil _ _),
        List.dropLast_cons_of_ne_nil houter, List.append_assoc, List.cons_append]
  callDepth := h₁.callDepth
  maxCallDepth := h₁.maxCallDepth

end Padded

end Environment

open Environment

/-! ## Evaluations with one more block -/

/-- Where an empty block makes no difference to evaluations of a reach. What a call sees has no
place for one. -/
def Reach.Overlooks : Reach → Nat → Prop
  | .call, _ => False
  | .expression, _ => True
  | .statement, p | .owner, p => 0 < p

/-- An evaluation is lexical, and an empty block makes no difference to it. -/
structure Eval.Weakens {α : Type} (r : Reach) (m : Eval α) : Prop extends m.Lexical r where
  padded {p : Nat} : r.Overlooks p → m.Transports (Padded p)

namespace Eval.Weakens

variable {r : Reach} {α β : Type}

theorem ofCall {m : Eval α} (hm : m.Weakens .call) : m.Weakens .expression where
  toLexical := hm.toLexical.ofCall
  padded {p} _ s env h := by
    have hglobal : SameGlobal s.env env := h.sameGlobal
    have hleft := hm.keeps s hglobal.linked
    have hright := hm.keeps { s with env } hglobal.linked'
    exact (hm.agrees s env hglobal).imp hleft hright fun s₁ env₁ h₁ hl hr => h.ofCall hl hr h₁

theorem ofStatement {m : Eval α} (hm : m.Weakens .statement) : m.Weakens .owner where
  toLexical := hm.toLexical.ofStatement
  padded := hm.padded

/-- What runs in a block of its own has the scope of that block before the empty one. -/
theorem padded_inBlock {m : Eval α} (hm : m.Weakens .owner) (p : Nat) :
    (Eval.inBlock m).Transports (Padded p) := by
  intro s env h
  have hblock : Padded (p + 1) s.env.pushBlock env.pushBlock := h.pushBlock
  have hrun := hm.padded (Nat.succ_pos p) { s with env := s.env.pushBlock } env.pushBlock hblock
  have hleft := hm.keeps { s with env := s.env.pushBlock } hblock.linked
  have hright := hm.keeps { s with env := env.pushBlock } hblock.linked'
  refine Outcome.Agrees.mapState (hrun.imp hleft hright fun s₁ env₁ h₁ hl hr => ?_)
  exact Padded.pop h hl.toSameShape hr.toSameShape h₁

/-- An empty block makes no difference to any evaluation. -/
theorem congruence (trace : Bool) : Congruence trace trace fun r _ m _ => Eval.Weakens r m where
  ofCall := ofCall
  ofExpression hm := ⟨hm.toLexical.ofExpression, fun _ => hm.padded trivial⟩
  ofStatement := ofStatement
  stop := ⟨(Lexical.congruence trace).stop, fun _ => Transports.stop⟩
  pure a := ⟨(Lexical.congruence trace).pure a, fun _ => Transports.pure a⟩
  bind hm hf :=
    ⟨hm.toLexical.bind fun a => (hf a).toLexical,
      fun hp => Transports.bind (hm.padded hp) fun a => (hf a).padded hp⟩
  fail failure := ⟨(Lexical.congruence trace).fail failure, fun _ => Transports.fail failure⟩
  mapError f hm := ⟨hm.toLexical.mapError f, fun hp => Transports.mapError f (hm.padded hp)⟩
  attempt hm := ⟨hm.toLexical.attempt, fun hp => Transports.attempt (hm.padded hp)⟩
  checkInterrupt :=
    ⟨(Lexical.congruence trace).checkInterrupt, fun _ => Transports.checkInterrupt⟩
  store := ⟨(Lexical.congruence trace).store, fun _ => Transports.store⟩
  tryWrite plan := ⟨(Lexical.congruence trace).tryWrite plan, fun _ => Transports.tryWrite plan⟩
  allocate f hf := ⟨(Lexical.congruence trace).allocate f hf, fun _ => Transports.allocate f⟩
  hostCall name f hf :=
    ⟨(Lexical.congruence trace).hostCall name f hf, fun _ => Transports.hostCall name f⟩
  emit event := ⟨(Lexical.congruence trace).emit event, fun _ => Transports.emit event⟩
  emitIf event hevent :=
    ⟨(Lexical.congruence trace).emitIf event hevent,
      fun _ => Transports.emitIf Padded.callDepth trace event⟩
  exports a names :=
    ⟨(Lexical.congruence trace).exports a names, fun _ => Transports.exports a names⟩
  get name := ⟨(Lexical.congruence trace).get name, fun _ => Transports.get Padded.get? name⟩
  capture := ⟨(Lexical.congruence trace).capture, fun _ => Transports.capture Padded.capture⟩
  assignVariable name v :=
    ⟨(Lexical.congruence trace).assignVariable name v,
      fun _ => Transports.assignVariable Padded.get? fun _ _ h =>
        (Padded.matching _).assign h name v⟩
  register targets handler :=
    ⟨(Lexical.congruence trace).register targets handler,
      fun _ => Transports.tryEnv fun _ _ h => (Padded.matching _).register h targets handler⟩
  declare mode name v span :=
    ⟨(Lexical.congruence trace).declare mode name v span,
      fun hp => Transports.tryEnv fun _ _ h =>
        (Padded.matching _).declare h (h.declarationScope hp mode) name v span⟩
  define name v mode :=
    ⟨(Lexical.congruence trace).define name v mode,
      fun hp => Transports.modifyEnv fun _ _ h => h.define hp name v mode⟩
  setLocal name v :=
    ⟨(Lexical.congruence trace).setLocal name v,
      fun hp => Transports.modifyEnv fun _ _ h => h.setLocal hp name v⟩
  inBlock hm := ⟨hm.toLexical.inBlock, fun {p} _ => hm.padded_inBlock p⟩
  inCall f self hm := ⟨hm.toLexical.inCall f self, fun hp => hp.elim⟩

end Eval.Weakens

/-! ## Leaving the block again -/

namespace Environment

variable {env env₁ env₂ : Environment}

theorem ext_scope (hdepth : env₂.depth = env₁.depth) (hscope : ∀ i, env₂.scope i = env₁.scope i)
    (hcalls : env₂.callDepth = env₁.callDepth) (hmax : env₂.maxCallDepth = env₁.maxCallDepth) :
    env₂ = env₁ := by
  obtain ⟨scopes₁, callDepth₁, maxCallDepth₁⟩ := env₁
  obtain ⟨scopes₂, callDepth₂, maxCallDepth₂⟩ := env₂
  have hscopes : scopes₂ = scopes₁ := by
    refine Array.ext hdepth fun i hi₂ hi₁ => ?_
    have hi := hscope i
    unfold scope at hi
    rwa [Array.getD_eq_getD_getElem?, Array.getD_eq_getD_getElem?, Array.getElem?_eq_getElem hi₂,
      Array.getElem?_eq_getElem hi₁] at hi
  obtain rfl : callDepth₂ = callDepth₁ := hcalls
  obtain rfl : maxCallDepth₂ = maxCallDepth₁ := hmax
  rw [hscopes]

/-- A statement leaves what it does not see. -/
theorem Footprint.bindings_eq (h : env.Linked) (hrun : Footprint .statement env env₁) {i : Nat}
    (hi : i ∉ env.chain) : (env₁.scope i).bindings = (env.scope i).bindings := by
  have hcurrent : i ≠ env.current := by
    rintro rfl
    exact hi (h.declarationScope_mem_chain .blockMutable)
  have hvar : i ≠ env.varScope := by
    rintro rfl
    exact hi (h.declarationScope_mem_chain .mutable)
  have hbindings := hrun.bindings i
  simp only [Reach.access] at hbindings
  rwa [if_neg (not_or.2 ⟨hcurrent, hvar⟩), if_neg hi] at hbindings

/-- What two statements left is the same, if it looks the same. -/
theorem Footprint.eq_of_frames (h : env.Linked) (h₁ : Footprint .statement env env₁)
    (h₂ : Footprint .statement env env₂) (hframes : env₂.frames = env₁.frames) : env₂ = env₁ := by
  refine ext_scope (h₂.depth.trans h₁.depth.symm) (fun i => ?_)
    (h₂.callDepth.trans h₁.callDepth.symm) (h₂.maxCallDepth.trans h₁.maxCallDepth.symm)
  have hbindings : (env₂.scope i).bindings = (env₁.scope i).bindings := by
    -- A scope on the chain is a frame, and the others are what they were before.
    by_cases hi : i ∈ env.chain
    · obtain ⟨k, hk⟩ := List.getElem?_of_mem hi
      have hframe : env₂.frames[k]? = env₁.frames[k]? := by rw [hframes]
      rw [getElem?_frames, getElem?_frames, h₁.chain, h₂.chain, hk] at hframe
      exact congrArg Prod.snd (Option.some.inj hframe)
    · rw [h₁.bindings_eq h hi, h₂.bindings_eq h hi]
  exact Scope.ext ((h₂.kind i).trans (h₁.kind i).symm) ((h₂.parent i).trans (h₁.parent i).symm)
    hbindings

end Environment

/-- A statement that an empty block makes no difference to may as well run in a block of its own. -/
theorem Eval.inBlock_eq_self {α : Type} {m : Eval α}
    (hkeeps : m.Keeps Linked (Footprint .statement)) (hpadded : m.Transports (Padded 0)) {s : State}
    (h : s.env.Linked) : Eval.inBlock m s = m s := by
  -- The block leaves the frames behind it as the bare statement leaves them.
  have hleave : ∀ {env₁ env₁' : Environment}, Padded 0 env₁ env₁' →
      Footprint .statement s.env env₁ → Footprint .statement s.env.pushBlock env₁' →
      env₁'.pop = env₁ := by
    intro env₁ env₁' hpad hbare hblock
    refine hbare.eq_of_frames h (Footprint.pop h hblock.ofStatement) ?_
    obtain ⟨inner, outer, hlength, -, hframes, hframes'⟩ := hpad.frames
    obtain rfl := List.length_eq_zero_iff.1 hlength
    rw [frames_pop h hblock.toSameShape, hframes, hframes']
    rfl
  have hrun := hpadded s s.env.pushBlock (Padded.pushBlock_self h)
  have hbare := hkeeps s h
  have hblock := hkeeps { s with env := s.env.pushBlock } h.pushBlock
  unfold Eval.inBlock
  generalize m s = o at hrun hbare
  generalize m { s with env := s.env.pushBlock } = o' at hrun hblock
  cases hrun with
  | ok hpad =>
    cases hbare with
    | ok hbare =>
      cases hblock with
      | ok hblock => simp only [Outcome.mapState, hleave hpad hbare hblock]
  | error hpad =>
    cases hbare with
    | error hbare =>
      cases hblock with
      | error hblock => simp only [Outcome.mapState, hleave hpad hbare hblock]
  | exhausted => rfl

end ReactiveScript
