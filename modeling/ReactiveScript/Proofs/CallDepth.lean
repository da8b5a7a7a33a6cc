import ReactiveScript.Proofs.Guards
import ReactiveScript.Proofs.ScopeDiscipline

/-!
# Call depth

The number of active calls is counted apart from the scopes of the calls. In every environment of a
session both agree: there is one scope of a call for each call that is counted, and no more than the
limit allows. A call at the limit fails before anything happens, and a call below the limit starts.
-/

namespace ReactiveScript

namespace Environment

/-- The number of scopes of calls on the stack. -/
def functionScopes (env : Environment) : Nat := env.scopes.countP (·.kind == .function)

/-- The counter of calls is exact and within a limit. -/
structure CountsCalls (limit : Nat) (env : Environment) : Prop where
  maxCallDepth : env.maxCallDepth = limit
  callDepth : env.callDepth = env.functionScopes
  callDepth_le : env.callDepth ≤ limit

instance (limit : Nat) : DecidablePred (CountsCalls limit) := fun env =>
  decidable_of_iff (env.maxCallDepth = limit ∧ env.callDepth = env.functionScopes ∧
      env.callDepth ≤ limit)
    ⟨fun h => ⟨h.1, h.2.1, h.2.2⟩, fun h => ⟨h.1, h.2, h.3⟩⟩

variable {limit : Nat} {env env₁ env' : Environment}

theorem functionScopes_pushBlock (env : Environment) :
    env.pushBlock.functionScopes = env.functionScopes :=
  Array.countP_push_of_neg Bool.false_ne_true

/-- Of the two scopes of a call, one is the scope of its variables. -/
theorem functionScopes_pushCall (env : Environment) (f : Function) (self : Value) :
    (env.pushCall f self).functionScopes = env.functionScopes + 1 := by
  unfold functionScopes pushCall
  rw [Array.countP_push_of_pos (by rfl), Array.countP_push_of_neg Bool.false_ne_true]

/-- The kinds of the scopes, from the global one to the innermost. -/
theorem map_kind_scopes (env : Environment) :
    env.scopes.toList.map (·.kind) = (List.range env.depth).map fun i => (env.scope i).kind := by
  refine List.ext_getElem (by simp [depth]) fun i hi _ => ?_
  have hlt : i < env.scopes.size := by simpa using hi
  simp [scope, hlt]

theorem SameShape.functionScopes (h : env.SameShape env') :
    env'.functionScopes = env.functionScopes := by
  have hkinds : env'.scopes.toList.map (·.kind) = env.scopes.toList.map (·.kind) := by
    rw [map_kind_scopes, map_kind_scopes, h.depth]
    exact List.map_congr_left fun i _ => h.kind i
  have hcount : ∀ env : Environment, env.functionScopes =
      (env.scopes.toList.map (·.kind)).countP (· == ScopeKind.function) := by
    intro env
    rw [List.countP_map, Array.countP_toList]
    rfl
  rw [hcount, hcount, hkinds]

namespace CountsCalls

/-- A fresh environment has no calls. -/
theorem fresh (limit : Nat) : CountsCalls limit { maxCallDepth := limit } :=
  ⟨rfl, rfl, Nat.zero_le limit⟩

theorem of_sameShape (h : env.CountsCalls limit) (hshape : env.SameShape env') :
    env'.CountsCalls limit where
  maxCallDepth := hshape.maxCallDepth.trans h.maxCallDepth
  callDepth := by rw [hshape.callDepth, hshape.functionScopes, h.callDepth]
  callDepth_le := by
    rw [hshape.callDepth]
    exact h.callDepth_le

theorem pushBlock (h : env.CountsCalls limit) : env.pushBlock.CountsCalls limit where
  maxCallDepth := h.maxCallDepth
  callDepth := h.callDepth.trans (functionScopes_pushBlock env).symm
  callDepth_le := h.callDepth_le

/-- A call that starts is counted once and has one scope more. -/
theorem beginCall {f : Function} {self : Value} (h : env.CountsCalls limit)
    (hcall : env.beginCall f self = .ok env₁) : env₁.CountsCalls limit := by
  obtain ⟨hlt, rfl⟩ := beginCall_ok hcall
  rw [h.maxCallDepth] at hlt
  refine ⟨h.maxCallDepth, ?_, hlt⟩
  rw [functionScopes_pushCall]
  exact congrArg (· + 1) h.callDepth

theorem clear (h : env.CountsCalls limit) : env.clear.CountsCalls limit :=
  ⟨h.maxCallDepth, rfl, Nat.zero_le limit⟩

/-- Evaluation keeps the counter exact, since it leaves all scopes that it enters. -/
theorem law (limit : Nat) : EnvironmentLaw (fun env => 0 < env.depth ∧ env.CountsCalls limit)
    fun _ env env' => env.SameShape env' :=
  SameShape.law.strengthen (fun _ h hshape => h.of_sameShape hshape) (fun _ h => h.pushBlock)
    fun _ h => h.beginCall

/-- The receiver and the parameters of a call are bound in its scopes, and none is entered. -/
theorem bindCall (henv : 0 < env.depth) (h : env.CountsCalls limit) (params : List String)
    (args : List Value) (receiver : Option Value) :
    (Rule.bindCall env params args receiver).CountsCalls limit ∧
      (Rule.bindCall env params args receiver).callDepth = env.callDepth := by
  have hkeeps := (SameShape.law.congruence false false).bindCall params args receiver
  cases hkeeps { env := env } henv with
  | ok hshape => exact ⟨h.of_sameShape hshape, hshape.callDepth⟩

end CountsCalls

end Environment

/-! ## Calls at the limit and below it -/

namespace Rule

variable {ctx : Context} {ev : Evaluator} {ref : Ref} {args : List Value}
  {receiver : Option Value} {s : State}

/-- A call at the limit fails, and nothing else happens. -/
theorem call_at_limit (h : s.env.callDepth = s.env.maxCallDepth) :
    call ctx ev (.function ref) args receiver s =
      .error (.of (.binding (.stackOverflow s.env.maxCallDepth s.env.maxCallDepth))) s := by
  have hrefused : ∀ f self, s.env.beginCall f self =
      .error (.stackOverflow s.env.maxCallDepth s.env.maxCallDepth) := by
    intro f self
    rw [Environment.beginCall_eq, if_neg (by omega), h]
  simp only [call, callFunction, Eval.inCall, hrefused]

/-- The state in which the body of a call starts. -/
def enterBody (ctx : Context) (f : Function) (args : List Value) (receiver : Option Value)
    (env : Environment) (s : State) : State :=
  { s with
    env := bindCall env f.params args receiver
    events := if ctx.trace then s.events.push (.call f.displayName env.callDepth) else s.events }

/-- A call below the limit enters its scopes, executes the body and leaves the scopes. -/
theorem call_below_limit {env : Environment}
    (h : s.env.beginCall (s.store.function ref) (.function ref) = .ok env) :
    call ctx ev (.function ref) args receiver s =
      ((ev.stmts (s.store.function ref).body >>= callResult)
        (enterBody ctx (s.store.function ref) args receiver env s)).mapState fun s =>
          { s with env := s.env.endCall } := by
  simp only [call, callFunction, Eval.inCall, h, callBody_eq]
  refine congrArg (Outcome.mapState _) ?_
  cases htrace : ctx.trace <;> simp only [enterBody, htrace] <;> rfl

end Rule

/-- In every environment of a session that starts with a fresh one, the counter of calls is the
number of scopes of calls and at most the limit: a session is the same if something else is done
wherever an expression, a statement, a block or a call would start otherwise. In such environments a
call of a function at the limit is refused, with nothing changed and whatever the parts of the body
would do. Below the limit it is not refused, and the body starts with one active call more. -/
theorem call_depth_is_exact (limit : Nat) (s : State) (trap : Evaluator) (visits : List Visit) :
    serve? (Evaluator.guardedLevel (Environment.CountsCalls limit) trap) visits (s.restart limit) =
        serve? Evaluator.level visits (s.restart limit) ∧
      (∀ s' ∈ serve? Evaluator.level visits (s.restart limit), s'.env.CountsCalls limit) ∧
      ∀ (ctx : Context) (ev : Evaluator) (ref : Ref) (args : List Value)
        (receiver : Option Value) (t : State), t.env.CountsCalls limit →
        (t.env.callDepth = limit →
          (Evaluator.next ctx ev).call (.function ref) args receiver t =
            .error (.of (.binding (.stackOverflow limit limit))) t) ∧
        (t.env.callDepth < limit →
          ∃ env start, t.env.beginCall (t.store.function ref) (.function ref) = .ok env ∧
            start = Rule.enterBody ctx (t.store.function ref) args receiver env t ∧
            start.env.CountsCalls limit ∧ start.env.callDepth = t.env.callDepth + 1 ∧
            (Evaluator.next ctx ev).call (.function ref) args receiver t =
              ((ev.stmts (t.store.function ref).body >>= Rule.callResult) start).mapState fun s =>
                { s with env := s.env.endCall }) := by
  have hstart : 0 < (s.restart limit).env.depth ∧ (s.restart limit).env.CountsCalls limit :=
    ⟨Nat.one_pos, .fresh limit⟩
  obtain ⟨hsame, hleaves⟩ := (Environment.CountsCalls.law limit).serve_guardedLevel
    (fun _ henv => henv.2) (fun _ henv => ⟨Nat.one_pos, henv.2.clear⟩) trap visits hstart
  refine ⟨hsame, fun s' hs' => (hleaves s' hs').2, fun ctx ev ref args receiver t ht => ⟨?_, ?_⟩⟩
  · intro hlimit
    have hfull : t.env.callDepth = t.env.maxCallDepth := hlimit.trans ht.maxCallDepth.symm
    have hcall : Rule.call ctx ev (.function ref) args receiver t = _ := Rule.call_at_limit hfull
    rw [ht.maxCallDepth] at hcall
    exact hcall
  · intro hlt
    rw [← ht.maxCallDepth] at hlt
    have hbegin := Environment.beginCall_eq t.env (t.store.function ref) (.function ref)
    rw [if_pos hlt] at hbegin
    have hdepth := Environment.depth_beginCall hbegin
    obtain ⟨hcounts, hbound⟩ := (ht.beginCall hbegin).bindCall (by omega)
      (t.store.function ref).params args receiver
    exact ⟨_, _, hbegin, rfl, hcounts, hbound.trans (Environment.callDepth_beginCall hbegin),
      Rule.call_below_limit hbegin⟩

/-- A function that calls itself without end, and a handler that does the same. -/
def endlessRecursion : List Stmt :=
  let again := Expr.of (.call (Expr.of (.ident "f")) [])
  [Stmt.of (.function (some "f") [] [Stmt.of (.expression again)]),
    Stmt.of (.declare .blockScoped [("x", some (Expr.of (.literal .null)))]),
    Stmt.of (.observe ["x"] (Expr.of (.ident "f"))),
    Stmt.of (.expression (Expr.of (.assign none (Expr.of (.ident "x"))
      (Expr.of (.literal (.bool true)))))),
    Stmt.of (.tryCatch [Stmt.of (.expression again)] (some (none, [])) none)]

/-- A call of a function is active, and the limit allows no other. -/
def oneCallActive : State :=
  { env :=
      { scopes := #[Scope.global, { kind := .closure, parent := some 0 },
          { kind := .function, parent := some 1 }]
        callDepth := 1
        maxCallDepth := 1 } }

/-- The recursion of `endlessRecursion` ends at the limit, in the program as in the notification,
and with one call active a call is refused that would overstep a limit of one. -/
theorem call_depth_is_exact_endlessRecursion :
    (∃ s', serve? Evaluator.level [⟨plainContext, 20, .run endlessRecursion⟩]
        (({} : State).restart 2) = some s' ∧
      serve? (Evaluator.guardedLevel (Environment.CountsCalls 2) Evaluator.empty)
        [⟨plainContext, 20, .run endlessRecursion⟩] (({} : State).restart 2) = some s' ∧
      s'.env.CountsCalls 2) ∧
    oneCallActive.env.CountsCalls 1 ∧ oneCallActive.env.callDepth = 1 ∧
    (Evaluator.next plainContext Evaluator.empty).call (.function 0) [] none oneCallActive =
      .error (.of (.binding (.stackOverflow 1 1))) oneCallActive := by
  have hreturns : (serve? Evaluator.level [⟨plainContext, 20, .run endlessRecursion⟩]
      (({} : State).restart 2)).isSome = true := by decide +kernel
  obtain ⟨s', hs'⟩ := Option.isSome_iff_exists.1 hreturns
  obtain ⟨hsame, hleaves, -⟩ := call_depth_is_exact 2 {} Evaluator.empty
    [⟨plainContext, 20, .run endlessRecursion⟩]
  have hcounts : oneCallActive.env.CountsCalls 1 := by decide
  obtain ⟨-, -, hcalls⟩ := call_depth_is_exact 1 {} Evaluator.empty []
  exact ⟨⟨s', hs', hsame.trans hs', hleaves s' hs'⟩, hcounts, rfl,
    (hcalls plainContext Evaluator.empty 0 [] none oneCallActive hcounts).1 rfl⟩

end ReactiveScript
