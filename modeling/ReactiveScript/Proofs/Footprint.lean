import Mathlib.Data.List.Forall2
import ReactiveScript.Proofs.Chain
import ReactiveScript.Proofs.MapKeys

/-!
# The footprint of an evaluation

What an evaluation may do to a scope depends on its reach and on where the scope stands. Scopes that
are not visible stay as they are. In those that are visible bindings evolve, and a statement appends
names to the innermost scope and to the one in which `var` declares. The scopes of a call see no
scope of the caller but the global one, which therefore is all that a call can change.
-/

namespace ReactiveScript

/-! ## Bindings of one scope -/

namespace Bindings

/-- The same names in the same order, each with what its binding has become. -/
def Kept (old new : OrderedMap Binding) : Prop :=
  List.Forall₂ (fun entry entry' => entry'.1 = entry.1 ∧ entry.2.Evolves entry'.2) old new

/-- The old names in their order, each with what its binding has become, and new names behind
them. -/
def Grown (old new : OrderedMap Binding) : Prop :=
  ∃ kept added, new = kept ++ added ∧ Kept old kept

variable {old mid new : OrderedMap Binding}

theorem Kept.refl (bindings : OrderedMap Binding) : Kept bindings bindings :=
  List.forall₂_same.2 fun entry _ => ⟨rfl, Binding.Evolves.refl entry.2⟩

theorem Kept.trans (h : Kept old mid) (h' : Kept mid new) : Kept old new := by
  unfold Kept at *
  induction h generalizing new with
  | nil => exact h'
  | cons hentry _ ih =>
    cases h' with
    | cons hentry' hrest' =>
      exact .cons ⟨hentry'.1.trans hentry.1, hentry.2.trans hentry'.2⟩ (ih hrest')

/-- One binding evolves and the others stay. -/
theorem Kept.adjust {bindings : OrderedMap Binding} {name : String} {f : Binding → Binding}
    (hf : ∀ b, OrderedMap.find? bindings name = some b → b.Evolves (f b)) :
    Kept bindings (OrderedMap.adjust bindings name f) := by
  induction bindings with
  | nil => exact .nil
  | cons entry rest ih =>
    obtain ⟨key, b⟩ := entry
    unfold OrderedMap.adjust
    unfold OrderedMap.find? at hf
    by_cases hkey : key = name
    · rw [if_pos hkey] at hf ⊢
      exact .cons ⟨rfl, hf b rfl⟩ (Kept.refl rest)
    · rw [if_neg hkey] at hf ⊢
      exact .cons ⟨rfl, Binding.Evolves.refl b⟩ (ih hf)

theorem Kept.grown (h : Kept old new) : Grown old new := ⟨new, [], (List.append_nil new).symm, h⟩

theorem grown_append (bindings added : OrderedMap Binding) : Grown bindings (bindings ++ added) :=
  ⟨bindings, added, rfl, Kept.refl bindings⟩

theorem Grown.trans (h : Grown old mid) (h' : Grown mid new) : Grown old new := by
  obtain ⟨kept, added, rfl, hkept⟩ := h
  obtain ⟨kept', added', rfl, hkept'⟩ := h'
  -- What was kept of both parts together was kept of each of them.
  have hfirst := List.forall₂_take_append kept' kept added hkept'.flip
  refine ⟨kept'.take kept.length, kept'.drop kept.length ++ added', ?_, hkept.trans hfirst.flip⟩
  rw [← List.append_assoc, List.take_append_drop]

theorem Kept.keys (h : Kept old new) : OrderedMap.keys new = OrderedMap.keys old := by
  induction h with
  | nil => rfl
  | cons hentry _ ih => exact congrArg₂ List.cons hentry.1 ih

theorem Grown.has (h : Grown old new) {name : String}
    (hname : OrderedMap.has old name = true) : OrderedMap.has new name = true := by
  obtain ⟨kept, added, rfl, hkept⟩ := h
  rw [OrderedMap.has_iff_mem_keys] at hname ⊢
  rw [OrderedMap.keys_append, hkept.keys]
  exact List.mem_append_left _ hname

end Bindings

/-! ## Access to a scope -/

/-- What an evaluation may do to the bindings of a scope. -/
inductive Access where
  /-- Nothing. -/
  | none
  /-- Bindings evolve. -/
  | evolve
  /-- Bindings evolve and names are added. -/
  | grow
  /-- The scope belongs to the evaluation. -/
  | full

namespace Access

/-- Whether bindings may become others. -/
def Allows : Access → OrderedMap Binding → OrderedMap Binding → Prop
  | .none, old, new => new = old
  | .evolve, old, new => Bindings.Kept old new
  | .grow, old, new => Bindings.Grown old new
  | .full, _, _ => True

variable {a b : Access} {old mid new : OrderedMap Binding}

theorem Allows.refl (a : Access) (bindings : OrderedMap Binding) : a.Allows bindings bindings := by
  cases a with
  | none => exact rfl
  | evolve => exact Bindings.Kept.refl bindings
  | grow => exact (Bindings.Kept.refl bindings).grown
  | full => exact trivial

theorem Allows.trans (h : a.Allows old mid) (h' : a.Allows mid new) : a.Allows old new := by
  cases a with
  | none => exact Eq.trans h' h
  | evolve => exact Bindings.Kept.trans h h'
  | grow => exact Bindings.Grown.trans h h'
  | full => exact trivial

theorem Allows.evolve (h : Access.none.Allows old new) : Access.evolve.Allows old new := by
  obtain rfl : new = old := h
  exact Bindings.Kept.refl new

/-- A scope that may grow may also be left alone or evolve. -/
theorem Allows.grow {visible : Prop} [Decidable visible]
    (h : (if visible then Access.evolve else Access.none).Allows old new) :
    Access.grow.Allows old new := by
  split at h
  · exact Bindings.Kept.grown h
  · exact Bindings.Kept.grown h.evolve

end Access

/-- The access that an evaluation has to the scope at an index. -/
def Reach.access (r : Reach) (env : Environment) (i : Nat) : Access :=
  match r with
  | .call => if i = 0 then .evolve else .none
  | .expression => if i ∈ env.chain then .evolve else .none
  | .statement =>
    if i = env.current ∨ i = env.varScope then .grow
    else if i ∈ env.chain then .evolve else .none
  | .owner =>
    if i = env.current then .full
    else if i = env.varScope then .grow
    else if i ∈ env.chain then .evolve else .none

/-! ## Footprints -/

namespace Environment

/-- The shape stays, and the bindings of each scope change as the reach allows. -/
structure Footprint (r : Reach) (env env' : Environment) : Prop extends env.SameShape env' where
  bindings (i : Nat) : (r.access env i).Allows (env.scope i).bindings (env'.scope i).bindings

namespace Footprint

variable {r : Reach} {env env₁ env₂ env' : Environment} {i : Nat}

theorem refl (env : Environment) : Footprint r env env where
  toSameShape := SameShape.refl env
  bindings _ := Access.Allows.refl _ _

theorem trans (h : Footprint r env env₁) (h' : Footprint r env₁ env₂) : Footprint r env env₂ where
  toSameShape := h.toSameShape.trans h'.toSameShape
  bindings i := by
    have haccess : r.access env₁ i = r.access env i := by
      unfold Reach.access
      rw [h.current, h.chain, h.varScope]
    have hsecond := h'.bindings i
    rw [haccess] at hsecond
    exact (h.bindings i).trans hsecond

/-- A scope changes as the reach allows, and the others stay. -/
theorem modifyScope {f : OrderedMap Binding → OrderedMap Binding}
    (hf : (r.access env i).Allows (env.scope i).bindings (f (env.scope i).bindings)) :
    Footprint r env (env.modifyScope i f) where
  toSameShape := SameShape.modifyScope env i f
  bindings j := by
    rcases scope_modifyScope env i j f with h | ⟨rfl, h⟩
    · rw [h]
      exact Access.Allows.refl _ _
    · rw [h]
      exact hf

theorem ofCall (henv : env.Linked) (h : Footprint .call env env') :
    Footprint .expression env env' where
  toSameShape := h.toSameShape
  bindings i := by
    have hi := h.bindings i
    simp only [Reach.access] at hi ⊢
    by_cases hzero : i = 0
    · subst hzero
      rwa [if_pos henv.zero_mem_chain]
    · rw [if_neg hzero] at hi
      split
      · exact hi.evolve
      · exact hi

theorem ofExpression (h : Footprint .expression env env') : Footprint .statement env env' where
  toSameShape := h.toSameShape
  bindings i := by
    have hi := h.bindings i
    simp only [Reach.access] at hi ⊢
    by_cases htarget : i = env.current ∨ i = env.varScope
    · rw [if_pos htarget]
      exact hi.grow
    · rwa [if_neg htarget]

theorem ofStatement (h : Footprint .statement env env') : Footprint .owner env env' where
  toSameShape := h.toSameShape
  bindings i := by
    have hi := h.bindings i
    simp only [Reach.access] at hi ⊢
    by_cases hcurrent : i = env.current
    · rw [if_pos hcurrent]
      exact trivial
    · rw [if_neg hcurrent]
      simpa only [hcurrent, false_or] using hi

/-- The binding that a name refers to evolves. -/
theorem modify {name : String} {f : Binding → Binding} (hi : env.position? name = some i)
    (hf : ∀ b, OrderedMap.find? (env.scope i).bindings name = some b → b.Evolves (f b)) :
    Footprint .expression env
      (env.modifyScope i fun bindings => OrderedMap.adjust bindings name f) := by
  have hvisible : i ∈ env.chain := List.mem_of_find?_eq_some hi
  refine modifyScope ?_
  show Access.Allows (if i ∈ env.chain then .evolve else .none) _ _
  rw [if_pos hvisible]
  exact Bindings.Kept.adjust hf

theorem declare (env : Environment) (mode : Mode) (name : String) (b : Binding) :
    Footprint .statement env
      (env.modifyScope (env.declarationScope mode) fun bindings => bindings ++ [(name, b)]) := by
  have htarget : env.declarationScope mode = env.current ∨
      env.declarationScope mode = env.varScope := by
    unfold declarationScope
    split
    · exact Or.inr rfl
    · exact Or.inl rfl
  refine modifyScope ?_
  show Access.Allows (if env.declarationScope mode = env.current ∨
    env.declarationScope mode = env.varScope then .grow else _) _ _
  rw [if_pos htarget]
  exact Bindings.grown_append _ _

theorem own (env : Environment) (f : OrderedMap Binding → OrderedMap Binding) :
    Footprint .owner env (env.modifyScope env.current f) := by
  refine modifyScope ?_
  show Access.Allows (if env.current = env.current then .full else _) _ _
  rw [if_pos rfl]
  exact trivial

/-- Beyond the innermost scope nothing can change. -/
theorem of_lt (hshape : env.SameShape env') (h : ∀ i < env.depth,
    (r.access env i).Allows (env.scope i).bindings (env'.scope i).bindings) :
    Footprint r env env' where
  toSameShape := hshape
  bindings i := by
    by_cases hi : i < env.depth
    · exact h i hi
    · have hdepth := hshape.depth
      rw [scope_of_le (by omega), scope_of_le (by omega)]
      exact Access.Allows.refl _ _

/-- The scope of a block is gone when the block is left, and what happened to the others a statement
may do. -/
theorem pop (henv : env.Linked) (h : Footprint .owner env.pushBlock env') :
    Footprint .statement env env'.pop := by
  have hdepth : env'.depth = env.depth + 1 := by rw [h.depth, depth_pushBlock]
  refine of_lt (h.toSameShape.pop henv.nonempty) fun i hlt => ?_
  have hi := h.bindings i
  have hinner : i ≠ env.depth := Nat.ne_of_lt hlt
  simp only [Reach.access] at hi ⊢
  rw [current_pushBlock, if_neg hinner, varScope_pushBlock henv, chain_pushBlock henv,
    scope_pushBlock_of_lt hlt] at hi
  rw [scope_pop_of_lt (by omega)]
  simp only [List.mem_cons, hinner, false_or] at hi
  by_cases hvar : i = env.varScope
  · rw [if_pos hvar] at hi
    rwa [if_pos (Or.inr hvar)]
  · rw [if_neg hvar] at hi
    by_cases hcurrent : i = env.current
    · rw [if_pos (Or.inl hcurrent)]
      exact hi.grow
    · rwa [if_neg (not_or.2 ⟨hcurrent, hvar⟩)]

/-- The scopes of a call are gone when it returns, and of the others it saw the global one only. -/
theorem endCall {f : Function} {self : Value} (henv : env.Linked)
    (hcall : env.beginCall f self = .ok env₁) (h : Footprint .owner env₁ env') :
    Footprint .call env env'.endCall := by
  have hdepth : env'.depth = env.depth + 2 := by rw [h.depth, depth_beginCall hcall]
  refine of_lt (h.toSameShape.endCall henv.nonempty hcall) fun i hlt => ?_
  have hi := h.bindings i
  have hfunction : i ≠ env.depth + 1 := by omega
  have hvisible : i ∈ [env.depth + 1, env.depth, 0] ↔ i = 0 := by
    simp [hfunction, Nat.ne_of_lt hlt]
  simp only [Reach.access] at hi ⊢
  rw [current_beginCall hcall, varScope_beginCall henv hcall, chain_beginCall henv hcall,
    scope_beginCall_of_lt hcall hlt, if_neg hfunction, if_neg hfunction] at hi
  rw [scope_endCall_of_lt (by omega)]
  simpa only [hvisible] using hi

/-- Every evaluation keeps to the footprint of its reach. -/
theorem law : EnvironmentLaw Linked Footprint where
  pre_of henv h := h.toSameShape.linked henv
  refl := refl
  trans := trans
  ofCall := ofCall
  ofExpression := ofExpression
  ofStatement := ofStatement
  modify _ hi hf := modify hi hf
  declare mode name b _ := declare _ mode name b
  own := own
  enterBlock henv := henv.pushBlock
  leaveBlock henv h := h.pop henv
  enterCall henv hcall := henv.beginCall hcall
  leaveCall henv hcall h := endCall henv hcall h

theorem congruence (trace trace' : Bool) :
    Congruence trace trace' fun r _ m _ => Eval.Keeps Linked (Footprint r) m :=
  law.congruence trace trace'

/-! ### What a footprint says about each scope -/

theorem kept (h : Footprint .expression env env') (i : Nat) :
    Bindings.Kept (env.scope i).bindings (env'.scope i).bindings := by
  have hi := h.bindings i
  simp only [Reach.access] at hi
  split at hi
  · exact hi
  · exact hi.evolve

theorem grown (h : Footprint .statement env env') (i : Nat) :
    Bindings.Grown (env.scope i).bindings (env'.scope i).bindings := by
  have hi := h.bindings i
  simp only [Reach.access] at hi
  split at hi
  · exact hi
  · exact hi.grow

/-- Names that are bound stay bound. -/
theorem contains (h : Footprint .statement env env') {name : String}
    (hname : env.contains name = true) : env'.contains name = true := by
  unfold Environment.contains position? at hname ⊢
  obtain ⟨i, hi, hhas⟩ := List.find?_isSome.1 hname
  rw [h.toSameShape.chain, List.find?_isSome]
  exact ⟨i, hi, (h.grown i).has hhas⟩

/-- A statement adds names to two scopes at most. -/
theorem kept_of_ne (h : Footprint .statement env env') (hcurrent : i ≠ env.current)
    (hvar : i ≠ env.varScope) :
    Bindings.Kept (env.scope i).bindings (env'.scope i).bindings := by
  have hi := h.bindings i
  simp only [Reach.access] at hi
  rw [if_neg (not_or.2 ⟨hcurrent, hvar⟩)] at hi
  split at hi
  · exact hi
  · exact hi.evolve

theorem kept_global (h : Footprint .call env env') :
    Bindings.Kept (env.scope 0).bindings (env'.scope 0).bindings :=
  h.bindings 0

/-- Outside of the global scope a call leaves no trace. -/
theorem scope_of_ne (h : Footprint .call env env') (hi : i ≠ 0) : env'.scope i = env.scope i := by
  have hbindings : (env'.scope i).bindings = (env.scope i).bindings := by
    have hi' := h.bindings i
    simp only [Reach.access] at hi'
    rwa [if_neg hi] at hi'
  exact Scope.ext (h.kind i) (h.parent i) hbindings

end Footprint

end Environment

/-- Bindings are only ever added, and constants never change. Whatever is evaluated and however that
ends, each scope still holds its names in their order with bindings that evolved. An expression adds
no names, and a statement adds names to the innermost scope and to the one in which `var` declares,
behind those that are there. -/
theorem evaluation_only_adds_bindings (ctx : Context) (fuel : Nat) (s : State)
    (h : s.env.Linked) :
    (∀ e, (Interpreter.evalExpr ctx fuel e s).Leaves fun s' => s'.env.depth = s.env.depth ∧
      ∀ i, Bindings.Kept (s.env.scope i).bindings (s'.env.scope i).bindings) ∧
    (∀ st, (Interpreter.execStmt ctx fuel st s).Leaves fun s' => s'.env.depth = s.env.depth ∧
      (∀ i, Bindings.Grown (s.env.scope i).bindings (s'.env.scope i).bindings) ∧
      ∀ i, i ≠ s.env.current → i ≠ s.env.varScope →
        Bindings.Kept (s.env.scope i).bindings (s'.env.scope i).bindings) := by
  have hlevel := (Environment.Footprint.congruence ctx.trace ctx.trace).level fuel
  constructor
  · intro e
    exact (hlevel.expr e s h).imp fun s' hs' => ⟨hs'.depth, hs'.kept⟩
  · intro st
    exact (hlevel.stmt st s h).imp fun s' hs' =>
      ⟨hs'.depth, hs'.grown, fun i hcurrent hvar => hs'.kept_of_ne hcurrent hvar⟩

/-- A statement that assigns to a variable. -/
def assignTo (name : String) (e : Expr) : Stmt :=
  Stmt.of (.expression (Expr.of (.assign none (Expr.of (.ident name)) e)))

/-- A program with a constant and a variable. -/
def twoGlobals : Environment :=
  (({} : Environment).define "limit" .null .immutable).define "total" .null .blockMutable

/-- A block of that program with a variable of its own, and a function that assigns to its
parameter, to the variable of the program and to the constant. -/
def nestedBlock : State where
  env := twoGlobals.pushBlock.define "count" .null .blockMutable
  store := { functions := #[⟨none, ["count"], [
    assignTo "count" (Expr.of (.literal (.bool true))),
    assignTo "total" (Expr.of (.ident "count")),
    assignTo "limit" (Expr.of (.ident "count"))], []⟩] }

/-- A loop that declares a variable and assigns to another one before it fails at the constant. -/
def assignInLoop : Stmt :=
  Stmt.of (.forOf ⟨some .constant, "x"⟩ (Expr.of (.list [Expr.of (.literal (.bool true))]))
    (Stmt.of (.block [
      Stmt.of (.declare .functionScoped [("seen", none)]),
      assignTo "total" (Expr.of (.ident "x")),
      assignTo "limit" (Expr.of (.ident "x"))])))

theorem evaluation_only_adds_bindings_assignInLoop :
    nestedBlock.env.Linked ∧
      (Interpreter.execStmt plainContext 9 assignInLoop nestedBlock).returns ∧
      (Interpreter.execStmt plainContext 9 assignInLoop nestedBlock).Leaves fun s' =>
        s'.env.depth = nestedBlock.env.depth ∧
          (∀ i, Bindings.Grown (nestedBlock.env.scope i).bindings (s'.env.scope i).bindings) ∧
          ∀ i, i ≠ nestedBlock.env.current → i ≠ nestedBlock.env.varScope →
            Bindings.Kept (nestedBlock.env.scope i).bindings (s'.env.scope i).bindings :=
  ⟨by decide +kernel, by decide +kernel,
    (evaluation_only_adds_bindings plainContext 9 nestedBlock (by decide +kernel)).2 assignInLoop⟩

/-- A call cannot touch the variables of its caller. However it ends, all scopes but the global one
are what they were, and in the global scope bindings evolved and no name came or went. -/
theorem call_preserves_caller (ctx : Context) (fuel : Nat) (f : Value) (args : List Value)
    (receiver : Option Value) (s : State) (h : s.env.Linked) :
    (Interpreter.callValue ctx fuel f args receiver s).Leaves fun s' =>
      s'.env.depth = s.env.depth ∧ (∀ i, i ≠ 0 → s'.env.scope i = s.env.scope i) ∧
        Bindings.Kept (s.env.scope 0).bindings (s'.env.scope 0).bindings := by
  have hlevel := (Environment.Footprint.congruence ctx.trace ctx.trace).level fuel
  refine (hlevel.call f args receiver s h).imp fun s' hs' => ?_
  exact ⟨hs'.depth, fun i hi => hs'.scope_of_ne hi, hs'.kept_global⟩

/-- The function of `nestedBlock` assigns to a parameter of the same name as the variable of the
block, and fails when it assigns to the constant. -/
theorem call_preserves_caller_nestedBlock :
    nestedBlock.env.Linked ∧
      (Interpreter.callValue plainContext 9 (.function 0) [] none nestedBlock).returns ∧
      (Interpreter.callValue plainContext 9 (.function 0) [] none nestedBlock).Leaves fun s' =>
        s'.env.depth = nestedBlock.env.depth ∧
          (∀ i, i ≠ 0 → s'.env.scope i = nestedBlock.env.scope i) ∧
          Bindings.Kept (nestedBlock.env.scope 0).bindings (s'.env.scope 0).bindings :=
  ⟨by decide +kernel, by decide +kernel,
    call_preserves_caller plainContext 9 (.function 0) [] none nestedBlock (by decide +kernel)⟩

end ReactiveScript
