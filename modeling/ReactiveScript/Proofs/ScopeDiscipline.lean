import ReactiveScript.Host.Globals
import ReactiveScript.Proofs.Preservation

/-!
# Scope discipline

Every scope that an evaluation enters it leaves again, on all paths: the stack of scopes has the
same shape afterwards, and the number of active calls is the same.
-/

namespace ReactiveScript

/-- The same scopes with the same kinds and parents, and the same number of active calls. What the
scopes hold may differ. -/
structure Environment.SameShape (env env' : Environment) : Prop where
  depth : env'.depth = env.depth
  kind (i : Nat) : (env'.scope i).kind = (env.scope i).kind
  parent (i : Nat) : (env'.scope i).parent = (env.scope i).parent
  callDepth : env'.callDepth = env.callDepth
  maxCallDepth : env'.maxCallDepth = env.maxCallDepth

namespace Environment.SameShape

variable {env env₁ env₂ env' : Environment}

theorem refl (env : Environment) : env.SameShape env :=
  ⟨rfl, fun _ => rfl, fun _ => rfl, rfl, rfl⟩

theorem trans (h : env.SameShape env₁) (h' : env₁.SameShape env₂) : env.SameShape env₂ where
  depth := h'.depth.trans h.depth
  kind i := (h'.kind i).trans (h.kind i)
  parent i := (h'.parent i).trans (h.parent i)
  callDepth := h'.callDepth.trans h.callDepth
  maxCallDepth := h'.maxCallDepth.trans h.maxCallDepth

theorem modifyScope (env : Environment) (i : Nat)
    (f : OrderedMap Binding → OrderedMap Binding) : env.SameShape (env.modifyScope i f) where
  depth := depth_modifyScope env i f
  kind j := kind_modifyScope env i j f
  parent j := parent_modifyScope env i j f
  callDepth := rfl
  maxCallDepth := rfl

theorem current (h : env.SameShape env') : env'.current = env.current := by
  have hdepth := h.depth
  unfold Environment.depth at hdepth
  unfold Environment.current
  rw [hdepth]

/-- Beyond the innermost scope there is nothing to compare. -/
theorem of_lt (hdepth : env'.depth = env.depth)
    (hscope : ∀ i < env.depth, (env'.scope i).kind = (env.scope i).kind ∧
      (env'.scope i).parent = (env.scope i).parent)
    (hcalls : env'.callDepth = env.callDepth) (hmax : env'.maxCallDepth = env.maxCallDepth) :
    env.SameShape env' := by
  have houtside : ∀ i, ¬ i < env.depth → env'.scope i = env.scope i := by
    intro i hi
    rw [scope_of_le (by omega), scope_of_le (by omega)]
  refine ⟨hdepth, fun i => ?_, fun i => ?_, hcalls, hmax⟩
  · by_cases hi : i < env.depth
    · exact (hscope i hi).1
    · rw [houtside i hi]
  · by_cases hi : i < env.depth
    · exact (hscope i hi).2
    · rw [houtside i hi]

/-- A block that is left restores the shape from before it. -/
theorem pop (henv : 0 < env.depth) (h : env.pushBlock.SameShape env') :
    env.SameShape env'.pop := by
  have hdepth : env'.depth = env.depth + 1 := by rw [h.depth, depth_pushBlock]
  refine of_lt ?_ (fun i hi => ?_) ?_ ?_
  · rw [depth_pop (by omega), hdepth]
    omega
  · rw [scope_pop_of_lt (by omega), h.kind, h.parent, scope_pushBlock_of_lt hi]
    exact ⟨rfl, rfl⟩
  · rw [callDepth_pop, h.callDepth]
    rfl
  · rw [maxCallDepth_pop, h.maxCallDepth]
    rfl

/-- A call that is left restores the shape from before it. -/
theorem endCall {f : Function} {self : Value} (henv : 0 < env.depth)
    (hcall : env.beginCall f self = .ok env₁) (h : env₁.SameShape env') :
    env.SameShape env'.endCall := by
  have hdepth : env'.depth = env.depth + 2 := by rw [h.depth, depth_beginCall hcall]
  refine of_lt ?_ (fun i hi => ?_) ?_ ?_
  · rw [depth_endCall (by omega), hdepth]
    omega
  · rw [scope_endCall_of_lt (by omega), h.kind, h.parent, scope_beginCall_of_lt hcall hi]
    exact ⟨rfl, rfl⟩
  · rw [callDepth_endCall, h.callDepth, callDepth_beginCall hcall]
    exact Nat.add_sub_cancel env.callDepth 1
  · rw [maxCallDepth_endCall, h.maxCallDepth, maxCallDepth_beginCall hcall]

/-- Every evaluation keeps the shape, whatever its reach. -/
theorem law : EnvironmentLaw (fun env => 0 < env.depth) fun _ env env' => env.SameShape env' where
  pre_of henv h := by rw [h.depth]; exact henv
  refl := refl
  trans := trans
  ofCall _ h := h
  ofExpression h := h
  ofStatement h := h
  modify _ _ _ := modifyScope _ _ _
  declare _ _ _ _ := modifyScope _ _ _
  own env f := modifyScope env env.current f
  enterBlock henv := by rw [depth_pushBlock]; exact Nat.succ_pos _
  leaveBlock henv h := h.pop henv
  enterCall _ hcall := by
    rw [depth_beginCall hcall]
    exact Nat.succ_pos _
  leaveCall henv hcall h := endCall henv hcall h

end Environment.SameShape

/-- Whatever is evaluated and however that ends, all scopes that were entered have been left: each
scope is there with its kind and parent, and no call is active that was not active before. -/
theorem evaluation_restores_scopes (ctx : Context) (fuel : Nat) (s : State)
    (h : 0 < s.env.depth) :
    (∀ e, (Interpreter.evalExpr ctx fuel e s).Leaves fun s' => s.env.SameShape s'.env) ∧
    (∀ st, (Interpreter.execStmt ctx fuel st s).Leaves fun s' => s.env.SameShape s'.env) ∧
    (∀ body, (Interpreter.execStmts ctx fuel body s).Leaves fun s' => s.env.SameShape s'.env) ∧
    (∀ body, (Interpreter.execBlock ctx fuel body s).Leaves fun s' => s.env.SameShape s'.env) ∧
    (∀ f args receiver, (Interpreter.callValue ctx fuel f args receiver s).Leaves fun s' =>
      s.env.SameShape s'.env) ∧
    (∀ task, (Interpreter.notifyHandler ctx fuel task s).Leaves fun s' =>
      s.env.SameShape s'.env) := by
  have hR := Environment.SameShape.law.congruence ctx.trace ctx.trace
  have hlevel := hR.level fuel
  exact ⟨fun e => hlevel.expr e s h, fun st => hlevel.stmt st s h,
    fun body => hR.stmts hlevel body s h, fun body => hlevel.block body s h,
    fun f args receiver => hlevel.call f args receiver s h,
    fun task => hR.notifyHandler fuel task s h⟩

/-- The context of a host without globals and modules. -/
def plainContext : Context := { library := Host.standardLibrary }

/-- A block with a function that throws and a loop that calls it. -/
def throwInLoop : Stmt :=
  Stmt.of (.block [
    Stmt.of (.function (some "f") [] [Stmt.of (.throw (Expr.of (.literal .null)))]),
    Stmt.of (.forOf ⟨some .constant, "x"⟩ (Expr.of (.list [Expr.of (.literal .null)]))
      (Stmt.of (.expression (Expr.of (.call (Expr.of (.ident "f")) [])))))])

/-- The failure of `throwInLoop` passes through the scopes of a call, a loop and a block. -/
theorem evaluation_restores_scopes_throwInLoop :
    0 < ({} : State).env.depth ∧
      (Interpreter.execStmt plainContext 9 throwInLoop {}).returns ∧
      (Interpreter.execStmt plainContext 9 throwInLoop {}).Leaves fun s' =>
        ({} : State).env.SameShape s'.env :=
  ⟨by decide, by decide +kernel,
    (evaluation_restores_scopes plainContext 9 {} (by decide)).2.1 throwInLoop⟩

end ReactiveScript
