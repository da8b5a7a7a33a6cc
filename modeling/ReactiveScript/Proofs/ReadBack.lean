import ReactiveScript.Interpreter
import ReactiveScript.Proofs.Chain
import ReactiveScript.Proofs.Dispatch
import ReactiveScript.Proofs.MapKeys
import ReactiveScript.Proofs.SameValue

/-!
# Reading back an assigned variable

An assignment that succeeds sets one binding, the one that its name refers to, and leaves everything
else as it was. Reading the name afterwards gives the value that was assigned, with one exception: a
variable that holds a zero keeps it when a zero is assigned, whatever its sign.
-/

namespace ReactiveScript

/-! ## Lookup by position -/

namespace Environment

variable {env env' : Environment} {name : String} {i : Nat}

theorem resolve?_eq (env : Environment) (name : String) :
    env.resolve? name =
      (env.position? name).bind fun i => OrderedMap.find? (env.scope i).bindings name := by
  unfold resolve? position?
  induction env.chain with
  | nil => rfl
  | cons i is ih =>
    rw [List.findSome?_cons, List.find?_cons]
    unfold OrderedMap.has
    cases hfind : OrderedMap.find? (env.scope i).bindings name with
    | none => exact ih
    | some b => exact hfind.symm

theorem get?_of_position (hi : env.position? name = some i) :
    env.get? name = (OrderedMap.find? (env.scope i).bindings name).map (·.value) := by
  rw [get?, resolve?_eq, hi]
  rfl

/-- Where names are found depends on the scopes' parents and on which names they hold. -/
theorem position?_congr (hshape : env.SameShape env') (name : String)
    (hhas : ∀ j, OrderedMap.has (env'.scope j).bindings name =
      OrderedMap.has (env.scope j).bindings name) :
    env'.position? name = env.position? name := by
  unfold position?
  rw [hshape.chain, funext hhas]

end Environment

/-! ## Changing one binding -/

namespace Environment

/-- What a change of one binding does to an environment. A name refers to a binding of some scope
and, afterwards, to another one in its place; all other bindings of all scopes stay, and so do the
scopes and the order of the names in them. -/
structure Rebinds (env : Environment) (name : String) (i : Nat) (b b' : Binding)
    (env' : Environment) : Prop where
  position : env.position? name = some i
  found : OrderedMap.find? (env.scope i).bindings name = some b
  position' : env'.position? name = some i
  written : OrderedMap.find? (env'.scope i).bindings name = some b'
  shape : env.SameShape env'
  keys (j : Nat) : OrderedMap.keys (env'.scope j).bindings = OrderedMap.keys (env.scope j).bindings
  others {j : Nat} {other : String} : (j = i → other ≠ name) →
    OrderedMap.find? (env'.scope j).bindings other = OrderedMap.find? (env.scope j).bindings other

variable {env : Environment} {name : String} {i : Nat} {b : Binding}

/-- A change of the binding where the name is found. -/
theorem Rebinds.adjust (hi : env.position? name = some i)
    (hb : OrderedMap.find? (env.scope i).bindings name = some b) (f : Binding → Binding) :
    env.Rebinds name i b (f b) (env.modifyScope i fun bindings =>
      OrderedMap.adjust bindings name f) := by
  have hself := scope_modifyScope_self (f := fun bindings => OrderedMap.adjust bindings name f)
    (lt_depth_of_find? hb)
  have hshape := SameShape.modifyScope env i fun bindings => OrderedMap.adjust bindings name f
  have hkeys : ∀ j, OrderedMap.keys ((env.modifyScope i fun bindings =>
      OrderedMap.adjust bindings name f).scope j).bindings =
      OrderedMap.keys (env.scope j).bindings := by
    intro j
    by_cases hj : j = i
    · subst hj
      rw [hself, OrderedMap.keys_adjust]
    · rw [scope_modifyScope_ne hj]
  refine
    { position := hi, found := hb, shape := hshape, keys := hkeys
      position' := ?_, written := ?_, others := fun {j other} hother => ?_ }
  · refine (position?_congr hshape name fun j => ?_).trans hi
    rw [Bool.eq_iff_iff, OrderedMap.has_iff_mem_keys, OrderedMap.has_iff_mem_keys, hkeys]
  · rw [hself, OrderedMap.find?_adjust_self, hb]
    rfl
  · by_cases hj : j = i
    · subst hj
      rw [hself, OrderedMap.find?_adjust_ne (hother rfl)]
    · rw [scope_modifyScope_ne hj]

end Environment

/-! ## What an assignment leaves -/

/-- The value of a variable after an assignment: the one that was assigned, unless it is a zero and
the variable held a zero. -/
def Value.stored (old v : Value) : Value := if old.bothZero v then old else v

theorem Value.stored_eq {old v : Value} (h : old.bothZero v = false) : old.stored v = v := by
  unfold stored
  rw [h]
  rfl

/-- What is stored is the assigned value, or both are zeros. -/
theorem Value.stored_cases (old v : Value) :
    old.stored v = v ∨ (old.stored v).bothZero v = true := by
  cases hzero : old.bothZero v with
  | false => exact Or.inl (stored_eq hzero)
  | true =>
    refine Or.inr ?_
    unfold stored
    rw [if_pos hzero, hzero]

theorem Value.stored_of_sameValue {old v : Value} (h : old.sameValue v = true) :
    old.stored v = old := by
  unfold stored
  rcases (sameValue_iff old v).1 h with rfl | hzero
  · exact ite_self _
  · rw [if_pos hzero]

theorem Value.stored_of_not_sameValue {old v : Value} (h : old.sameValue v = false) :
    old.stored v = v := by
  refine stored_eq ?_
  cases hzero : old.bothZero v with
  | false => rfl
  | true =>
    rw [(sameValue_iff old v).2 (Or.inr hzero)] at h
    cases h

namespace Environment

/-- What an assignment does to an environment. The name refers to a binding of some scope, before
and after; this binding is no constant and gets another value and nothing else; all other bindings
of all scopes stay, and so do the scopes and the order of the names in them. -/
structure Assigns (env : Environment) (name : String) (v : Value) (i : Nat) (b : Binding)
    (env' : Environment) : Prop where
  position : env.position? name = some i
  found : OrderedMap.find? (env.scope i).bindings name = some b
  mode : b.mode ≠ .immutable
  position' : env'.position? name = some i
  written : OrderedMap.find? (env'.scope i).bindings name = some { b with value := b.value.stored v }
  shape : env.SameShape env'
  keys (j : Nat) : OrderedMap.keys (env'.scope j).bindings = OrderedMap.keys (env.scope j).bindings
  others {j : Nat} {other : String} : (j = i → other ≠ name) →
    OrderedMap.find? (env'.scope j).bindings other = OrderedMap.find? (env.scope j).bindings other

variable {env env' : Environment} {name : String} {v : Value} {i : Nat} {b : Binding}

theorem Assigns.get? (h : env.Assigns name v i b env') :
    env'.get? name = some (b.value.stored v) := by
  rw [get?_of_position h.position', h.written]
  rfl

/-- An assignment of the same value. -/
theorem Assigns.same (hi : env.position? name = some i)
    (hb : OrderedMap.find? (env.scope i).bindings name = some b) (hmode : b.mode ≠ .immutable)
    (hsame : b.value.sameValue v = true) : env.Assigns name v i b env where
  position := hi
  found := hb
  mode := hmode
  position' := hi
  written := by
    rw [hb, Value.stored_of_sameValue hsame]
  shape := SameShape.refl env
  keys _ := rfl
  others _ := rfl

/-- A change of the value where the name is found. -/
theorem Assigns.changed (hi : env.position? name = some i)
    (hb : OrderedMap.find? (env.scope i).bindings name = some b) (hmode : b.mode ≠ .immutable)
    (hsame : b.value.sameValue v = false) :
    env.Assigns name v i b (env.modifyScope i fun bindings =>
      OrderedMap.adjust bindings name fun b => { b with value := v }) := by
  have h := Rebinds.adjust hi hb fun b => { b with value := v }
  exact
    { position := hi, found := hb, mode := hmode, position' := h.position'
      written := by rw [h.written, Value.stored_of_not_sameValue hsame]
      shape := h.shape, keys := h.keys, others := h.others }

theorem Assigns.rebinds (h : env.Assigns name v i b env') :
    env.Rebinds name i b { b with value := b.value.stored v } env' :=
  ⟨h.position, h.found, h.position', h.written, h.shape, h.keys, h.others⟩

theorem assigns_of_assign {m : Option Mutation} (h : env.assign name v = .ok (env', m)) :
    ∃ i b, env.Assigns name v i b env' := by
  rcases env.assign_cases name v with ⟨e, hassign, -⟩ | ⟨i, b, hi, hb, hmode, hassign⟩
  · rw [hassign] at h
    cases h
  · rcases hassign with ⟨hsame, hassign⟩ | ⟨hchanged, hassign⟩
    · rw [hassign] at h
      cases h
      exact ⟨i, b, .same hi hb hmode hsame⟩
    · rw [hassign] at h
      cases h
      exact ⟨i, b, .changed hi hb hmode hchanged⟩

end Environment

/-! ## Assignment expressions -/

namespace Rule

variable {name : String} {v : Value} {s s' : State}

theorem assignVariable_ok (h : assignVariable name v s = .ok () s') :
    ∃ m, s.env.assign name v = .ok (s'.env, m) := by
  unfold assignVariable at h
  split at h
  · cases h
  · rename_i env hassign
    cases h
    exact ⟨none, hassign⟩
  · rename_i env m hassign
    cases h
    rw [notify_env]
    exact ⟨some m, hassign⟩

theorem ident_of_lookup? {ctx : Context} (h : lookup? ctx s.env name = some v) :
    ident ctx name s = .ok v s := by
  rw [ident, h]

end Rule

/-- Changing the error makes no values. -/
theorem Outcome.eq_ok_of_mapError {σ ε α : Type} {f : ε → ε} {o : Outcome σ ε α} {a : α} {s : σ}
    (h : o.mapError f = .ok a s) : o = .ok a s := by
  cases o with
  | ok a s => exact h
  | error e s => cases h
  | exhausted => cases h

/-- A value of an expression is one that the rules give it. -/
theorem Interpreter.evalExpr_ok {ctx : Context} {fuel : Nat} {span : Span} {kind : ExprKind}
    {v : Value} {s s' : State} (h : evalExpr ctx fuel (.node span kind) s = .ok v s') :
    ∃ n, fuel = n + 1 ∧ Rule.exprKind ctx (.level ctx n) kind s = .ok v s' := by
  cases fuel with
  | zero => cases h
  | succ n =>
    refine ⟨n, rfl, ?_⟩
    change Rule.expr ctx (.level ctx n) (.node span kind) s = .ok v s' at h
    unfold Rule.expr at h
    split at h
    · cases h
    · exact Outcome.eq_ok_of_mapError h

/-- A statement does what the rules say, after it may have been logged. -/
theorem Interpreter.execStmt_succ (ctx : Context) (n : Nat) (span : Span) (kind : StmtKind)
    {s : State} (h : s.interrupted = false) :
    ∃ log, execStmt ctx (n + 1) (.node span kind) s =
      (Rule.stmtKind ctx (.level ctx n) span kind { s with events := log }).mapError
        (·.locate span) := by
  have hgo : ¬ s.interrupted = true := by simp [h]
  have hstmt : execStmt ctx (n + 1) (.node span kind) s =
      ((Eval.emitIf ctx.trace (.statement kind.name span) >>= fun _ =>
        Rule.stmtKind ctx (.level ctx n) span kind) s).mapError (·.locate span) := if_neg hgo
  rw [hstmt]
  cases ctx.trace with
  | true => exact ⟨_, rfl⟩
  | false => exact ⟨_, rfl⟩

/-- A completion of a statement is one that the rules give it. -/
theorem Interpreter.execStmt_ok {ctx : Context} {fuel : Nat} {span : Span} {kind : StmtKind}
    {c : Completion} {s s' : State} (h : execStmt ctx fuel (.node span kind) s = .ok c s') :
    ∃ n log, Rule.stmtKind ctx (.level ctx n) span kind { s with events := log } = .ok c s' := by
  cases fuel with
  | zero => cases h
  | succ n =>
    by_cases hgo : s.interrupted = true
    · have hstop : execStmt ctx (n + 1) (.node span kind) s = .error .interrupted s := if_pos hgo
      rw [hstop] at h
      cases h
    · obtain ⟨log, hstmt⟩ := execStmt_succ ctx n span kind (Bool.not_eq_true _ ▸ hgo)
      rw [hstmt] at h
      exact ⟨n, log, Outcome.eq_ok_of_mapError h⟩

end ReactiveScript
