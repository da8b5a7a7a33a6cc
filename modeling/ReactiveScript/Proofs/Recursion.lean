import ReactiveScript.Proofs.CallFrames
import ReactiveScript.Proofs.FunctionTable
import ReactiveScript.Proofs.Interruption
import ReactiveScript.Proofs.Lookups

/-!
# Recursion

A declared function takes its snapshot before its own name is declared. So it finds itself under
this name if nothing else was visible there, since a call adds the function to the snapshot. A
variable of an enclosing scope that has the name of the function hides it: the snapshot holds that
variable, and the body finds its value instead of the function.
-/

namespace ReactiveScript

open Interpreter (evalExpr execStmt callValue)

/-- A name evaluates to a value, wherever it stands, unless the evaluation was interrupted. -/
def State.Knows (ctx : Context) (s : State) (name : String) (v : Value) : Prop :=
  s.interrupted = false → ∀ (fuel : Nat) (span : Span),
    evalExpr ctx (fuel + 1) (.node span (.ident name)) s = .ok v s

theorem State.knows_of_resolve? {ctx : Context} {s : State} {name : String} {b : Binding}
    (h : s.env.resolve? name = some b) : s.Knows ctx name b.value := by
  intro hgo fuel span
  have hlookup : Rule.lookup? ctx s.env name = some b.value := by
    rw [Rule.lookup?, Environment.get?, h]
    rfl
  show (Evaluator.level ctx (fuel + 1)).expr _ s = _
  rw [Evaluator.expr_eq hgo]
  show (Rule.ident ctx name s).mapError _ = _
  rw [Rule.ident_of_lookup? hlookup]
  rfl

/-! ## Declarations -/

/-- A new function is the last one of the store. -/
theorem Store.function_newFunction (st : Store) (f : Function) :
    (st.newFunction f).2.function st.functions.size = f := by
  simp [newFunction, function]

theorem Store.size_newFunction (st : Store) (f : Function) :
    (st.newFunction f).2.functions.size = st.functions.size + 1 :=
  Array.size_push f

/-- A declaration that succeeds stores a function with a snapshot of what was visible, and declares
its name. -/
theorem Rule.declareFunction_ok {ctx : Context} {span : Span} {f : String} {params : List String}
    {body : List Stmt} {c : Completion} {s s' : State}
    (h : declareFunction ctx span (some f) params body s = .ok c s') :
    s.env.declare .function f (.function s.store.functions.size) (some span) = .ok s'.env ∧
      s'.store = (s.store.newFunction ⟨some f, params, body, s.env.capture⟩).2 := by
  obtain ⟨v, s₁, hfunction, h⟩ := Eval.bind_eq_ok h
  cases hfunction
  obtain ⟨⟨⟩, s₂, hdeclare, h⟩ := Eval.bind_eq_ok h
  obtain ⟨env, henv, rfl⟩ := Eval.tryEnv_ok hdeclare
  obtain ⟨⟨⟩, s₃, hlog, h⟩ := Eval.bind_eq_ok h
  cases h
  unfold Eval.emitIf at hlog
  split at hlog <;> cases hlog
  · exact ⟨henv, rfl⟩
  · exact ⟨henv, rfl⟩

/-- Wherever a call of a function with a name starts, the name is decided by the snapshot of the
function, and by the function itself if the snapshot does not hold the name. -/
theorem Environment.CallFrame.own_name {caller : Environment} {f : Function} {callee : Value}
    {args : List Value} {receiver : Option Value} {start : State} {name : String}
    (h : caller.CallFrame f callee args receiver start.env) (hname : f.name = some name)
    (hparams : name ∉ f.params) (hthis : name ≠ Rule.thisName) (ctx : Context) :
    start.Knows ctx name (((OrderedMap.find? f.closure name).map (·.value)).getD callee) := by
  cases hc : OrderedMap.find? f.closure name with
  | none => exact State.knows_of_resolve? (h.itself hparams hthis hc hname)
  | some c => exact State.knows_of_resolve? (h.captured hparams hthis hc)

/-- A declared function knows itself, unless its name was taken. After a function declaration that
succeeds, the name stands for the function, and the function stays what it is in every session that
follows, if host code leaves functions alone. Calls of it, from wherever they are made and whatever
was declared since, start in states in which the name evaluates to the function itself, if no
variable of this name was visible where the function was declared, in an enclosing scope. If one
was, then the name evaluates to the value that this variable had at that time. A parameter of this
name, and the receiver if the name is `this`, are nearer than either. -/
theorem declared_function_knows_itself (ctx : Context) (fuel : Nat) (span : Span) (f : String)
    (params : List String) (body : List Stmt) (s s' : State) (c : Completion)
    (henv : 0 < s.env.depth) (hparams : f ∉ params)
    (h : execStmt ctx fuel (.node span (.function (some f) params body)) s = .ok c s') :
    ∃ ref, s'.env.get? f = some (.function ref) ∧
      s'.store.function ref = ⟨some f, params, body, s.env.capture⟩ ∧
      (∀ (visits : List Visit) (t : State),
        (∀ visit ∈ visits, visit.ctx.library.Within Host.KeepsFunctions) →
        serve? Evaluator.level visits s' = some t →
        t.store.function ref = s'.store.function ref) ∧
      ∀ (ctx' : Context) (fuel' : Nat) (args : List Value) (receiver : Option Value) (t : State),
        t.store.function ref = s'.store.function ref → t.env.Linked →
        t.env.callDepth < t.env.maxCallDepth →
        ∃ start : State,
          callValue ctx' (fuel' + 1) (.function ref) args receiver t =
            (((Evaluator.level ctx' fuel').stmts body >>= Rule.callResult) start).mapState
              (fun s => { s with env := s.env.endCall }) ∧
          (f ≠ Rule.thisName → s.env.resolve? f = none →
            start.Knows ctx' f (.function ref)) ∧
          (f ≠ Rule.thisName → ∀ b, s.env.resolve? f = some b → start.Knows ctx' f b.value) ∧
          (f = Rule.thisName → start.Knows ctx' f (receiver.getD .null)) := by
  obtain ⟨n, log, hrule⟩ := Interpreter.execStmt_ok h
  obtain ⟨hdeclare, hstore⟩ := Rule.declareFunction_ok hrule
  have hresolve := Environment.resolve?_of_declare henv (by decide) hdeclare
  have hrecord := Store.function_newFunction s.store ⟨some f, params, body, s.env.capture⟩
  rw [← show s'.store = _ from hstore] at hrecord
  have hstored : s.store.functions.size < s'.store.functions.size := by
    rw [hstore, Store.size_newFunction]
    exact Nat.lt_succ_self _
  refine ⟨s.store.functions.size, ?_, hrecord, ?_, ?_⟩
  · rw [Environment.get?, hresolve]
    rfl
  · intro visits t hhost hserve
    exact (keepsFunctions_of_serve? hhost hserve).function_eq hstored
  · intro ctx' fuel' args receiver t ht hlinked hlimit
    obtain ⟨start, hcall, hframe⟩ := Rule.call_callFrame ctx' (Evaluator.level ctx' fuel')
      args receiver (ht.trans hrecord) hlinked hlimit
    refine ⟨start, hcall, fun hthis hfresh => ?_, fun hthis b hb => ?_, ?_⟩
    · have hown := hframe.own_name rfl hparams hthis ctx'
      rwa [Environment.find?_capture, hfresh] at hown
    · have hown := hframe.own_name rfl hparams hthis ctx'
      rwa [Environment.find?_capture, hb] at hown
    · -- The snapshot may hold `this` as well, but the receiver is nearer.
      rintro rfl
      exact State.knows_of_resolve? (hframe.receiver hparams)

/-- The body `return f;`. -/
def returnName : List Stmt := [Stmt.of (.ret (some (Expr.of (.ident "f"))))]

/-- The declaration `function f() { return f; }`. -/
def returnsOwnName : Stmt := Stmt.of (.function (some "f") [] returnName)

/-- The evaluation of the expression `function () {}`. -/
def anotherFunction : Visit := ⟨plainContext, 2, .evaluate (Expr.of (.function none [] []))⟩

/-- Where no `f` is visible, the function returns itself, also after another function was stored. -/
theorem declared_function_knows_itself_returnsOwnName :
    0 < ({} : State).env.depth ∧ ({} : State).env.resolve? "f" = none ∧
      ∃ s' t ref, execStmt plainContext 2 returnsOwnName {} = .ok .done s' ∧
        s'.env.get? "f" = some (.function ref) ∧
        serve? Evaluator.level [anotherFunction] s' = some t ∧ t.store.functions.size = 2 ∧
        t.env.Linked ∧ t.env.callDepth < t.env.maxCallDepth ∧
        callValue plainContext 4 (.function ref) [] none t = .ok (.function ref) t ∧
        ∃ start : State,
          callValue plainContext 4 (.function ref) [] none t =
            (((Evaluator.level plainContext 3).stmts returnName >>= Rule.callResult) start).mapState
              (fun s => { s with env := s.env.endCall }) ∧
          start.Knows plainContext "f" (.function ref) := by
  have hrun : ∃ s' t, execStmt plainContext 2 returnsOwnName {} = .ok .done s' ∧
      s'.env.get? "f" = some (.function 0) ∧
      serve? Evaluator.level [anotherFunction] s' = some t ∧ t.store.functions.size = 2 ∧
      t.env.Linked ∧ t.env.callDepth < t.env.maxCallDepth ∧
      callValue plainContext 4 (.function 0) [] none t = .ok (.function 0) t :=
    ⟨_, _, rfl, rfl, rfl, rfl, by decide +kernel, by decide +kernel, rfl⟩
  obtain ⟨s', t, hs', hget, hserve, hsize, hlinked, hlimit, hcall⟩ := hrun
  obtain ⟨ref, hget', -, hkept, hcalls⟩ := declared_function_knows_itself plainContext 2 .unknown
    "f" [] returnName {} s' .done Nat.one_pos List.not_mem_nil hs'
  obtain rfl : 0 = ref := by
    rw [hget] at hget'
    cases hget'
    rfl
  have hhost : ∀ visit ∈ [anotherFunction], visit.ctx.library.Within Host.KeepsFunctions :=
    List.forall_mem_singleton.2 Host.standardLibrary_within
  obtain ⟨start, hstart, hknows, -⟩ := hcalls plainContext 3 [] none t (hkept _ t hhost hserve)
    hlinked hlimit
  exact ⟨Nat.one_pos, rfl, s', t, 0, hs', hget, hserve, hsize, hlinked, hlimit, hcall, start,
    hstart, hknows (by decide) rfl⟩

/-- A block inside of the scope of a global variable `f`. -/
def blockBesideName : State where
  env := (({} : Environment).define "f" (.bool true) .mutable).pushBlock

/-- Where another `f` is visible, the function returns the value of that variable, although its name
stands for the function at the same time. -/
theorem visible_name_hides_declared_function :
    ∃ s' ref, execStmt plainContext 2 returnsOwnName blockBesideName = .ok .done s' ∧
      s'.env.get? "f" = some (.function ref) ∧
      callValue plainContext 4 (.function ref) [] none s' = .ok (.bool true) s' ∧
      Value.strictEquals (.bool true) (.function ref) = false :=
  ⟨_, 0, rfl, rfl, rfl, rfl⟩

end ReactiveScript
