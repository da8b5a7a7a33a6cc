import ReactiveScript.Host.Sample
import ReactiveScript.Proofs.Agreement.Statement
import ReactiveScript.Proofs.ScopeDiscipline
import ReactiveScript.Proofs.TaskOrder

/-!
# Interruption

An interruption takes effect at once and cannot be absorbed. Nothing is evaluated once it was asked
for; nothing reports one that was not asked for; and whatever depends on an interrupted part is
interrupted itself, with no further effect than that it leaves its scopes.
-/

namespace ReactiveScript

/-! ## Nothing runs after an interruption -/

namespace Evaluator

variable {ctx : Context} {n : Nat} {s : State}

theorem expr_interrupted (h : s.interrupted = true) (e : Expr) :
    (level ctx (n + 1)).expr e s = .error .interrupted s :=
  if_pos h

theorem expr_eq (hgo : s.interrupted = false) (n : Nat) (span : Span) (kind : ExprKind) :
    (level ctx (n + 1)).expr (.node span kind) s =
      Eval.locating span (Rule.exprKind ctx (level ctx n) kind) s := by
  show (if s.interrupted then _ else _) = _
  rw [hgo]
  rfl

theorem stmt_interrupted (h : s.interrupted = true) (st : Stmt) :
    (level ctx (n + 1)).stmt st s = .error .interrupted s :=
  if_pos h

/-- A statement of a list is not executed, a `when` is not even looked at. -/
theorem step_interrupted (h : s.interrupted = true) (last : Value) (st : Stmt) :
    (level ctx (n + 1)).step last st s = .error .interrupted s := by
  unfold step
  split
  · rw [Eval.checkInterrupt_bind, if_pos h]
  · rw [Eval.bind_apply, stmt_interrupted h]

theorem idle_block (h : s.interrupted = true) (body : List Stmt) :
    Idle s ((level ctx (n + 2)).block body s) := by
  show Idle s (((level ctx (n + 1)).stmts body { s with env := s.env.pushBlock }).mapState
    fun s => { s with env := s.env.pop })
  have hblock : State.interrupted { s with env := s.env.pushBlock } = true := h
  cases body with
  | nil => exact .done .null
  | cons st body =>
    rw [stmts, stmtsFrom_cons, Eval.bind_apply, step_interrupted hblock]
    exact .interrupted

/-- With one step left a block does not fail, unless it was interrupted before. -/
theorem block_one_ne_error (h : s.interrupted = false) (body : List Stmt) (failure : Failure)
    (s₁ : State) : (level ctx 1).block body s ≠ .error failure s₁ := by
  show ((level ctx 0).stmts body { s with env := s.env.pushBlock }).mapState
    (fun s => { s with env := s.env.pop }) ≠ _
  have hblock : State.interrupted { s with env := s.env.pushBlock } = false := h
  cases body with
  | nil => exact fun hok => by cases hok
  | cons st body =>
    have hstep : (level ctx 0).step .null st { s with env := s.env.pushBlock } = .exhausted := by
      unfold step
      split
      · rw [Eval.checkInterrupt_bind, hblock]
        rfl
      · rfl
    rw [stmts, stmtsFrom_cons, Eval.bind_apply, hstep]
    exact fun hexhausted => by cases hexhausted

theorem idles_level (ctx : Context) (n : Nat) : (level ctx n).Idles := by
  intro block s failure s₁ hgo herror body t ht
  cases n with
  | zero => cases herror
  | succ n =>
    cases n with
    | zero => exact absurd herror (block_one_ne_error hgo block failure s₁)
    | succ n => exact idle_block ht body

end Evaluator

/-! ## Evaluators that differ after interruptions -/

namespace Setting

theorem alike_empty (D : Setting) : D.Alike Evaluator.empty Evaluator.empty where
  expr _ := .stop
  stmt _ := .stop
  block _ := .stop
  call _ _ _ := .stop
  rounds := rfl
  idles := Evaluator.idles_level D.ctx 0

theorem Alike.succ {D : Setting} {n : Nat} {ev' : Evaluator}
    (h : D.Alike (Evaluator.level D.ctx n) ev') :
    D.Alike (Evaluator.level D.ctx (n + 1)) (Evaluator.next D.ctx ev') := by
  have hidles : (Evaluator.level D.ctx (n + 1)).Idles := Evaluator.idles_level D.ctx (n + 1)
  rw [Evaluator.level_succ] at hidles ⊢
  exact h.next hidles

theorem alike_level (D : Setting) (n : Nat) :
    D.Alike (Evaluator.level D.ctx n) (Evaluator.level D.ctx n) := by
  induction n with
  | zero => exact D.alike_empty
  | succ n ih =>
    have hnext := ih.succ
    rwa [← Evaluator.level_succ] at hnext

/-- Nothing is demanded of programs and hosts. Parts that leave a state in `halts` may differ. -/
def unrestricted (ctx : Context) (halts : State → Prop) : Setting where
  ctx := ctx
  bodies := .all
  halts t := halts t ∧ t.interrupted = true
  host := ctx.library.sound_all
  flagged h := h.2

end Setting

/-- A statement completes in a way that is expected where it stands, if it sends no signals but
those that are. -/
theorem Evaluator.allows_of_isScoped {ctx : Context} {n : Nat} {st : Stmt} {here : Signals}
    {s s' : State} {c : Completion} (hst : st.isScoped .all here = true)
    (h : (level ctx n).stmt st s = .ok c s') : here.allows c = true := by
  have halike := (Setting.unrestricted ctx fun _ => False).alike_level n
  have hmeets := (halike.stmt hst (State.sound_all ctx s)).2
  rw [show (level (Setting.unrestricted ctx fun _ => False).ctx n).stmt st s = .ok c s' from h]
    at hmeets
  cases hmeets with
  | ok _ _ hcompletion => exact hcompletion.1

/-- An interruption that is reported was asked for. -/
def Outcome.Flagged {α : Type} (o : Outcome State Failure α) : Prop :=
  ∀ s, o = .error .interrupted s → s.interrupted = true

theorem Setting.Agree.flagged {D : Setting} {s : State} {α : Type} {m m' : Eval α}
    {Q : State → α → Prop} (h : D.Agree s m m' Q) (hs : s.Sound D.ctx D.bodies) :
    (m s).Flagged := by
  intro s' herror
  have hmeets := (h hs).2
  rw [herror] at hmeets
  cases hmeets with
  | error _ _ h => exact h

namespace Evaluator

/-- The evaluator that results from applying the rules some times. -/
def above (ctx : Context) (ev : Evaluator) : Nat → Evaluator
  | 0 => ev
  | k + 1 => next ctx (above ctx ev k)

/-- An evaluator does the same as another one, except where that one is interrupted and leaves a
state in `halts`. What it does there is not restricted in any way. -/
structure SameUnless (halts : State → Prop) (ev ev' : Evaluator) : Prop where
  expr (e : Expr) (s : State) :
    ev'.expr e s = ev.expr e s ∨ (ev.expr e s).InterruptedIn halts
  stmt (st : Stmt) (s : State) :
    ev'.stmt st s = ev.stmt st s ∨ (ev.stmt st s).InterruptedIn halts
  block (body : List Stmt) (s : State) :
    ev'.block body s = ev.block body s ∨ (ev.block body s).InterruptedIn halts
  call (f : Value) (args : List Value) (receiver : Option Value) (s : State) :
    ev'.call f args receiver s = ev.call f args receiver s ∨
      (ev.call f args receiver s).InterruptedIn halts
  rounds : ev'.rounds = ev.rounds

end Evaluator

namespace Setting

variable {ctx : Context} {halts : State → Prop} {s : State} {α : Type} {m m' : Eval α}
  {Q : State → α → Prop}

theorem Agree.unless (h : (unrestricted ctx halts).Agree s m m Q)
    (hsame : m' s = m s ∨ (m s).InterruptedIn halts) : (unrestricted ctx halts).Agree s m m' Q := by
  intro hs
  refine ⟨hsame.imp_right ?_, (h hs).2⟩
  rintro ⟨t, herror, ht⟩
  exact ⟨t, herror, t, ⟨ht, h.flagged hs t herror⟩, .refl⟩

theorem Agree.sameUnless (h : (unrestricted ctx halts).Agree s m m' Q) :
    m' s = m s ∨ (m s).InterruptedIn (State.Unwound halts) := by
  refine (h (State.sound_all ctx s)).1.imp_right ?_
  rintro ⟨s₁, herror, t, ht, hunwinds⟩
  exact ⟨s₁, herror, t, ht.1, hunwinds⟩

theorem alike_of_sameUnless {fuel : Nat} {ev' : Evaluator}
    (h : (Evaluator.level ctx fuel).SameUnless halts ev') :
    (unrestricted ctx halts).Alike (Evaluator.level ctx fuel) ev' := by
  have hlevel := (unrestricted ctx halts).alike_level fuel
  exact {
    expr := fun he => (hlevel.expr he).unless (h.expr _ _)
    stmt := fun hst => (hlevel.stmt hst).unless (h.stmt _ _)
    block := fun hbody => (hlevel.block hbody).unless (h.block _ _)
    call := fun hf hargs hreceiver => (hlevel.call hf hargs hreceiver).unless (h.call _ _ _ _)
    rounds := h.rounds
    idles := hlevel.idles }

theorem sameUnless_of_alike {ev ev' : Evaluator} (h : (unrestricted ctx halts).Alike ev ev') :
    ev.SameUnless (State.Unwound halts) ev' where
  expr e _ := (h.expr (isScoped_all.1 e)).sameUnless
  stmt st _ := (h.stmt (isScoped_all.2.1 st)).sameUnless
  block body _ := (h.block (isScoped_all.2.2 body)).sameUnless
  call f _ _ _ := (h.call (Store.sound_all _ f) (fun v _ => Store.sound_all _ v)
    fun v _ => Store.sound_all _ v).sameUnless
  rounds := h.rounds

end Setting

/-- What depends on an interrupted part is interrupted, and leaves scopes since then but does
nothing else. By induction on the levels between the two. -/
theorem Evaluator.SameUnless.above {ctx : Context} {fuel : Nat} {halts : State → Prop}
    {ev' : Evaluator} (h : (level ctx fuel).SameUnless halts ev') (k : Nat) :
    (level ctx (fuel + k)).SameUnless (State.Unwound halts) (ev'.above ctx k) := by
  suffices (Setting.unrestricted ctx halts).Alike (level ctx (fuel + k)) (ev'.above ctx k) from
    Setting.sameUnless_of_alike this
  induction k with
  | zero => exact Setting.alike_of_sameUnless h
  | succ k ih => exact ih.succ

/-! ## Reported interruptions -/

/-- An evaluator that reports no interruption but those that were asked for. -/
structure Evaluator.Flagged (ev : Evaluator) : Prop where
  expr (e : Expr) (s : State) : (ev.expr e s).Flagged
  stmt (st : Stmt) (s : State) : (ev.stmt st s).Flagged
  stmts (body : List Stmt) (s : State) : (ev.stmts body s).Flagged
  block (body : List Stmt) (s : State) : (ev.block body s).Flagged
  call (f : Value) (args : List Value) (receiver : Option Value) (s : State) :
    (ev.call f args receiver s).Flagged

theorem Evaluator.flagged_level (ctx : Context) (n : Nat) : (level ctx n).Flagged := by
  have hlevel := (Setting.unrestricted ctx fun _ => False).alike_level n
  have hsound : ∀ (s : State) (v : Value), s.store.Sound .all v := fun s => s.store.sound_all
  exact {
    expr := fun e s => (hlevel.expr (isScoped_all.1 e)).flagged (State.sound_all ctx s)
    stmt := fun st s => (hlevel.stmt (isScoped_all.2.1 st)).flagged (State.sound_all ctx s)
    stmts := fun body s => (hlevel.stmts (isScoped_all.2.2 body)).flagged (State.sound_all ctx s)
    block := fun body s => (hlevel.block (isScoped_all.2.2 body)).flagged (State.sound_all ctx s)
    call := fun f args receiver s => (hlevel.call (hsound s f) (fun v _ => hsound s v)
      fun v _ => hsound s v).flagged (State.sound_all ctx s) }

namespace Interpreter

variable {ctx : Context} {fuel : Nat}

theorem flagged_programResult (completion : Completion) (s : State) :
    (programResult completion s).Flagged := by
  intro s' herror
  cases completion <;> cases herror

theorem flagged_execute (program : List Stmt) (s : State) :
    (execute ctx fuel program s).Flagged := by
  have hstmts := (Evaluator.flagged_level ctx fuel).stmts program
    { s with events := s.events.push (.execute program.length) }
  rw [execute_eq, execStmts]
  generalize Evaluator.stmts _ program _ = o at hstmts
  cases o with
  | ok completion s => exact flagged_programResult completion s
  | error failure s =>
    intro s' herror
    cases herror
    exact hstmts s rfl
  | exhausted => exact fun s' herror => by cases herror

theorem flagged_runPending (s : State) : (runPending ctx fuel s).Flagged := by
  intro s' herror
  obtain ⟨log, hlog⟩ := runPending_eq ctx fuel s
  have hturn := (system ctx fuel).turn_drain Failure.interrupted fuel 0 s
  rw [hlog, TaskSystem.drain] at herror
  generalize TaskQueue.drain _ _ _ _ _ _ _ = o at hturn herror
  cases hturn with
  | done => cases herror
  | halted _ _ hhalted =>
    cases herror
    exact hhalted
  | exhausted => cases herror

end Interpreter

/-! ## Try statements -/

theorem Environment.pop_pushBlock {env : Environment} (h : 0 < env.depth) :
    env.pushBlock.pop = env := by
  have hsize : 1 < (env.scopes.push { kind := .block, parent := some env.current }).size := by
    rw [Array.size_push]
    exact Nat.succ_lt_succ h
  rw [pop, pushBlock, if_pos hsize, Array.pop_push]

theorem Eval.emitIf_eq (trace : Bool) (event : Event) (s : State) :
    ∃ events, emitIf trace event s = .ok () { s with events } := by
  cases trace with
  | true => exact ⟨_, rfl⟩
  | false => exact ⟨s.events, rfl⟩

namespace Evaluator

variable {ctx : Context} {fuel : Nat} {s s' : State}

theorem depth_block {block : List Stmt} {failure : Failure} (hdepth : 0 < s.env.depth)
    (hblock : (level ctx fuel).block block s = .error failure s') : 0 < s'.env.depth := by
  have hlevel := (Environment.SameShape.law.congruence ctx.trace ctx.trace).level fuel
  have hleaves : ((level ctx fuel).block block s).Leaves fun s' => s.env.SameShape s'.env :=
    hlevel.block block s hdepth
  rw [hblock] at hleaves
  cases hleaves with
  | error hshape => rwa [hshape.depth]

/-- Neither the handler nor the finalizer of an interrupted block does anything. -/
theorem tryCatch_interrupted {block : List Stmt} (hdepth : 0 < s.env.depth)
    (hgo : s.interrupted = false)
    (hblock : (level ctx fuel).block block s = .error .interrupted s')
    (handler : Option (Option String × List Stmt)) (finalizer : Option (List Stmt)) :
    Rule.tryCatch (level ctx fuel) block handler finalizer s = .error .interrupted s' := by
  have hattempt : ((level ctx fuel).block block).attempt s = .ok (.error .interrupted) s' := by
    rw [Eval.attempt, hblock]
  unfold Rule.tryCatch
  rw [Eval.bind_apply, hattempt]
  dsimp only
  rw [Setting.handled_interrupted]
  cases finalizer with
  | none => rfl
  | some body =>
    have hflag := (flagged_level ctx fuel).block block s s' hblock
    have hidle := idles_level ctx fuel hgo hblock body s' hflag
    show Rule.finalized (level ctx fuel) true (.error .interrupted) (some body) s' = _
    rw [Setting.finalized_interrupted hidle, Environment.pop_pushBlock (depth_block hdepth hblock)]

theorem stmt_tryCatch_interrupted {span : Span} {block : List Stmt} (hdepth : 0 < s.env.depth)
    (hgo : s.interrupted = false)
    (hblock : (do
      Eval.emitIf ctx.trace (.statement "try" span)
      (level ctx fuel).block block) s = .error .interrupted s')
    (handler : Option (Option String × List Stmt)) (finalizer : Option (List Stmt)) :
    (level ctx (fuel + 1)).stmt (.node span (.tryCatch block handler finalizer)) s =
      .error .interrupted s' := by
  obtain ⟨events, hemit⟩ := Eval.emitIf_eq ctx.trace (.statement "try" span) s
  rw [Eval.bind_apply, hemit] at hblock
  have htry := tryCatch_interrupted (s := { s with events }) hdepth hgo hblock handler finalizer
  show (if s.interrupted then _ else _) = _
  rw [hgo]
  show ((Eval.emitIf ctx.trace (.statement "try" span) >>= _) s).mapError _ = _
  rw [Eval.bind_apply, hemit]
  show (Rule.tryCatch (level ctx fuel) block handler finalizer { s with events }).mapError _ = _
  rw [htry]
  exact congrArg (Outcome.error · s') (Failure.locate_interrupted span)

end Evaluator

/-- An interruption takes effect at once and cannot be absorbed. Where it was asked for, nothing is
evaluated and nothing changes. Where it is reported, it was asked for. A `try` statement whose block
is interrupted is interrupted in the same state, so that neither its handler nor its finalizer has
done anything. And whatever encloses an interrupted part, at any distance, does not depend on what
follows it: let an evaluator do something else wherever an interruption leaves a state in `halts`;
all that is built upon it stays the same, except what is interrupted itself and has done no more
since than to leave its scopes. -/
theorem interruption_is_final (ctx : Context) (fuel : Nat) :
    (∀ s : State, s.interrupted = true →
      (∀ e, Interpreter.evalExpr ctx (fuel + 1) e s = .error .interrupted s) ∧
      ∀ st, Interpreter.execStmt ctx (fuel + 1) st s = .error .interrupted s) ∧
    (∀ s : State,
      (∀ e, (Interpreter.evalExpr ctx fuel e s).Flagged) ∧
      (∀ st, (Interpreter.execStmt ctx fuel st s).Flagged) ∧
      (∀ body, (Interpreter.execStmts ctx fuel body s).Flagged) ∧
      (∀ body, (Interpreter.execBlock ctx fuel body s).Flagged) ∧
      (∀ f args receiver, (Interpreter.callValue ctx fuel f args receiver s).Flagged) ∧
      (∀ program, (Interpreter.execute ctx fuel program s).Flagged) ∧
      (Interpreter.runPending ctx fuel s).Flagged) ∧
    (∀ (s s' : State) (span : Span) (block : List Stmt),
      0 < s.env.depth → s.interrupted = false →
      (do
        Eval.emitIf ctx.trace (.statement "try" span)
        Interpreter.execBlock ctx fuel block) s = .error .interrupted s' →
      ∀ handler finalizer,
        Interpreter.execStmt ctx (fuel + 1) (.node span (.tryCatch block handler finalizer)) s =
          .error .interrupted s') ∧
    ∀ (halts : State → Prop) (ev' : Evaluator),
      (Evaluator.level ctx fuel).SameUnless halts ev' →
      ∀ k, (Evaluator.level ctx (fuel + k)).SameUnless (State.Unwound halts) (ev'.above ctx k) := by
  have hflagged := Evaluator.flagged_level ctx fuel
  refine ⟨fun s hs => ⟨Evaluator.expr_interrupted hs, Evaluator.stmt_interrupted hs⟩,
    fun s => ⟨fun e => hflagged.expr e s, fun st => hflagged.stmt st s,
      fun body => hflagged.stmts body s, fun body => hflagged.block body s,
      fun f args receiver => hflagged.call f args receiver s,
      fun program => Interpreter.flagged_execute program s, Interpreter.flagged_runPending s⟩,
    fun s s' span block hdepth hgo hblock => ?_, fun halts ev' h k => h.above k⟩
  exact Evaluator.stmt_tryCatch_interrupted hdepth hgo hblock

/-- A host with a global that asks to stop. -/
def stoppingHost : Context := { library := Host.sampleLibrary, globals := [("halt", .builtin 0)] }

/-- A state in which this global is that builtin. -/
def stoppingStart : State := { store := { builtins := #[⟨"halt", some 0⟩] } }

/-- A call of that builtin. -/
def haltCall : Stmt := Stmt.of (.expression (Expr.of (.call (Expr.of (.ident "halt")) [])))

/-- A loop that never ends by itself, in a block. -/
def haltingLoop : Stmt :=
  Stmt.of (.block [Stmt.of (.whileLoop (Expr.of (.literal (.bool true))) haltCall)])

/-- The evaluation that runs out of steps where another one is interrupted. -/
def Eval.endless {α : Type} (m : Eval α) : Eval α := fun s =>
  match m s with
  | .error .interrupted _ => .exhausted
  | o => o

/-- The evaluator of such evaluations. -/
def Evaluator.endless (ev : Evaluator) : Evaluator where
  expr e := (ev.expr e).endless
  stmt st := (ev.stmt st).endless
  block body := (ev.block body).endless
  call f args receiver := (ev.call f args receiver).endless
  rounds := ev.rounds

theorem Eval.endless_eq {α : Type} (m : Eval α) (s : State) :
    m.endless s = m s ∨ (m s).InterruptedIn fun _ => True := by
  unfold Eval.endless
  split
  · rename_i s' herror
    exact Or.inr ⟨s', herror, trivial⟩
  · exact Or.inl rfl

theorem Evaluator.sameUnless_endless (ev : Evaluator) :
    ev.SameUnless (fun _ => True) ev.endless where
  expr e := (ev.expr e).endless_eq
  stmt st := (ev.stmt st).endless_eq
  block body := (ev.block body).endless_eq
  call f args receiver := (ev.call f args receiver).endless_eq
  rounds := rfl

/-- The second call in the block of a `try` statement is interrupted. Its handler and its finalizer
would return. In the same way a loop is interrupted, and so is the block around it, which depends on
that: with a loop that does not come back it would not come back. -/
theorem interruption_is_final_haltCall :
    (∃ s', (do
        Eval.emitIf stoppingHost.trace (.statement "try" .unknown)
        Interpreter.execBlock stoppingHost 5 [haltCall, haltCall]) stoppingStart =
          .error .interrupted s' ∧
      Interpreter.execStmt stoppingHost 6 (Stmt.of (.tryCatch [haltCall, haltCall]
        (some (none, [Stmt.of (.ret none)])) (some [Stmt.of (.ret none)]))) stoppingStart =
          .error .interrupted s') ∧
    ((Evaluator.level stoppingHost 6).endless.above stoppingHost 2).stmt haltingLoop stoppingStart =
      .exhausted ∧
    ((Evaluator.level stoppingHost 8).stmt haltingLoop stoppingStart).InterruptedIn
      (State.Unwound fun _ => True) := by
  have hblock : ∃ s', (do
      Eval.emitIf stoppingHost.trace (.statement "try" .unknown)
      Interpreter.execBlock stoppingHost 5 [haltCall, haltCall]) stoppingStart =
        .error .interrupted s' := ⟨_, rfl⟩
  obtain ⟨s', hs'⟩ := hblock
  refine ⟨⟨s', hs', (interruption_is_final stoppingHost 5).2.2.1 _ s' _ _ (by decide) rfl hs' _ _⟩,
    rfl, ?_⟩
  have hloop := ((interruption_is_final stoppingHost 6).2.2.2 _ _
    (Evaluator.sameUnless_endless _) 2).stmt haltingLoop stoppingStart
  refine hloop.resolve_left fun hsame => ?_
  have hexhausted : (Evaluator.level stoppingHost 8).stmt haltingLoop stoppingStart = .exhausted :=
    hsame.symm.trans rfl
  cases hexhausted

end ReactiveScript
