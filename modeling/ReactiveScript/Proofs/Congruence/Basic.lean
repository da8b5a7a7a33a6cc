import ReactiveScript.Eval.Statement

/-!
# Congruences of evaluation

Many laws of the language relate the evaluations of a phrase in two runs, or say what one run does
to the state. They are all proved in the same way: the law holds of the elementary steps, it is kept
by the ways in which evaluations are combined, and therefore every construct has it if its parts do.

A `Congruence` lists what has to be shown about the elementary steps and the combinators. What
follows from it is `Congruence.level`: evaluators of the same level are related. A congruence may
rely on a property of all host code; it relies on nothing unless one is given.

What a part may do to the environment depends on where it stands. A call reaches nothing but the
global scope, an expression also the visible scopes, a statement declares names in them, and a
construct that has entered a scope of its own sets it up as it likes. This is the `Reach` of an
evaluation.
-/

namespace ReactiveScript

/-- How far an evaluation reaches into the environment in which it starts. -/
inductive Reach where
  /-- A call, which sees the global scope only. -/
  | call
  /-- An expression, which changes visible variables but declares none. -/
  | expression
  /-- A statement, which declares names as well. -/
  | statement
  /-- The inside of a construct whose own scope is the innermost one. -/
  | owner
  deriving DecidableEq, Repr

/-- The context that differs at most in whether programs are traced. -/
abbrev Context.tracing (ctx : Context) (trace : Bool) : Context := { ctx with trace }

/-- The ways in which an evaluation stores something new. -/
inductive Store.Allocates : (Store → Value × Store) → Prop where
  | list (items : Array Value) : Allocates (·.newList items)
  | record (entries : OrderedMap Value) : Allocates (·.newRecord entries)
  | function (f : Function) : Allocates (·.newFunction f)

/-- Host code all of which has a property. -/
class HostLibrary.Within (lib : HostLibrary) (hosted : (Store → Reply) → Prop) : Prop where
  builtin (name : String) (args : List Value) : hosted (lib.builtin name args)
  invoke (ref : Ref) (method : String) (args : List Value) :
    hosted fun st => lib.invoke st ref method args

instance HostLibrary.within_true (lib : HostLibrary) : lib.Within fun _ => True where
  builtin _ _ := trivial
  invoke _ _ _ := trivial

/-- A relation between evaluations that holds of the elementary steps of the language and is kept by
the ways of combining evaluations. The runs on the two sides may differ in whether they trace. Of
host code the property `hosted` is assumed. -/
structure Congruence (trace trace' : Bool) (R : Reach → {α : Type} → Eval α → Eval α → Prop)
    (hosted : (Store → Reply) → Prop := fun _ => True) : Prop where
  /-- What a call may do, an expression may do. -/
  ofCall {α : Type} {m m' : Eval α} : R .call m m' → R .expression m m'
  /-- What an expression may do, a statement may do. -/
  ofExpression {α : Type} {m m' : Eval α} : R .expression m m' → R .statement m m'
  /-- What a statement may do, the owner of a scope may do. -/
  ofStatement {α : Type} {m m' : Eval α} : R .statement m m' → R .owner m m'
  /-- Running out of steps. -/
  stop {r : Reach} {α : Type} : R r (Eval.stop : Eval α) Eval.stop
  protected pure {r : Reach} {α : Type} (a : α) : R r (pure a) (pure a)
  protected bind {r : Reach} {α β : Type} {m m' : Eval α} {f f' : α → Eval β} :
    R r m m' → (∀ a, R r (f a) (f' a)) → R r (m >>= f) (m' >>= f')
  fail {r : Reach} {α : Type} (failure : Failure) :
    R r (Eval.fail failure : Eval α) (Eval.fail failure)
  mapError {r : Reach} {α : Type} {m m' : Eval α} (f : Failure → Failure) :
    R r m m' → R r (fun s => (m s).mapError f) (fun s => (m' s).mapError f)
  attempt {r : Reach} {α : Type} {m m' : Eval α} : R r m m' → R r m.attempt m'.attempt
  checkInterrupt {r : Reach} : R r Eval.checkInterrupt Eval.checkInterrupt
  /-- Reading the store. -/
  store {r : Reach} : R r Eval.store Eval.store
  tryWrite {r : Reach} (plan : Store → Except Cause Store.Write) :
    R r (Eval.tryWrite plan) (Eval.tryWrite plan)
  allocate {r : Reach} (f : Store → Value × Store) (hf : Store.Allocates f) :
    R r (Eval.allocate f) (Eval.allocate f)
  hostCall {r : Reach} (name : String) (f : Store → Reply) (hf : hosted f) :
    R r (Eval.hostCall name f) (Eval.hostCall name f)
  emit {r : Reach} (event : Event) : R r (Eval.emit event) (Eval.emit event)
  /-- An event of a trace, which may mention the call depth. -/
  emitIf {r : Reach} (event : Nat → Event) (hevent : ∀ depth, (event depth).ofTrace) :
    R r (fun s => Eval.emitIf trace (event s.env.callDepth) s)
      (fun s => Eval.emitIf trace' (event s.env.callDepth) s)
  /-- Recording exported names. -/
  exports {r : Reach} {α : Type} (a : α) (names : List String) :
    R r (fun s => .ok a { s with exports := s.exports ++ names })
      (fun s => .ok a { s with exports := s.exports ++ names })
  /-- Looking up a name. -/
  get (name : String) :
    R .expression (fun s => .ok (s.env.get? name) s) (fun s => .ok (s.env.get? name) s)
  /-- Taking a snapshot of the visible bindings. -/
  capture : R .expression (fun s => .ok s.env.capture s) (fun s => .ok s.env.capture s)
  assignVariable (name : String) (v : Value) :
    R .expression (Rule.assignVariable name v) (Rule.assignVariable name v)
  register (targets : List String) (handler : Value) :
    R .expression (Eval.tryEnv (Rule.register targets handler))
      (Eval.tryEnv (Rule.register targets handler))
  declare (mode : Mode) (name : String) (v : Value) (span : Option Span) :
    R .statement (Eval.tryEnv fun env => env.declare mode name v span)
      (Eval.tryEnv fun env => env.declare mode name v span)
  define (name : String) (v : Value) (mode : Mode) :
    R .owner (Eval.modifyEnv fun env => env.define name v mode)
      (Eval.modifyEnv fun env => env.define name v mode)
  setLocal (name : String) (v : Value) :
    R .owner (Eval.modifyEnv fun env => env.setLocal name v)
      (Eval.modifyEnv fun env => env.setLocal name v)
  inBlock {α : Type} {m m' : Eval α} :
    R .owner m m' → R .statement (Eval.inBlock m) (Eval.inBlock m')
  inCall {α : Type} {m m' : Eval α} (f : Function) (self : Value) :
    R .owner m m' → R .call (Eval.inCall f self m) (Eval.inCall f self m')

/-- Evaluators whose evaluations of the same phrase are related. -/
structure Evaluator.Related (R : Reach → {α : Type} → Eval α → Eval α → Prop)
    (ev ev' : Evaluator) : Prop where
  expr (e : Expr) : R .expression (ev.expr e) (ev'.expr e)
  stmt (st : Stmt) : R .statement (ev.stmt st) (ev'.stmt st)
  block (body : List Stmt) : R .statement (ev.block body) (ev'.block body)
  call (f : Value) (args : List Value) (receiver : Option Value) :
    R .call (ev.call f args receiver) (ev'.call f args receiver)
  /-- Loops of related rounds are related, although the number of rounds is bounded. -/
  repeating {r : Reach} {round round' : Eval Eval.Round} :
    R r round round' → R r (Eval.repeating round ev.rounds) (Eval.repeating round' ev'.rounds)

/-! ## Evaluations as sequences of steps -/

namespace Eval

theorem bind_apply {α β : Type} (m : Eval α) (f : α → Eval β) (s : State) :
    (m >>= f) s = match m s with
      | .ok a s => f a s
      | .error failure s => .error failure s
      | .exhausted => .exhausted :=
  rfl

/-- What two evaluations come to, one after the other, they come to by way of a value of the
first. -/
theorem bind_eq_ok {α β : Type} {m : Eval α} {f : α → Eval β} {s s' : State} {b : β}
    (h : (m >>= f) s = .ok b s') : ∃ a s₁, m s = .ok a s₁ ∧ f a s₁ = .ok b s' := by
  rw [bind_apply] at h
  cases hm : m s with
  | ok a s₁ =>
    rw [hm] at h
    exact ⟨a, s₁, rfl, h⟩
  | error failure s₁ =>
    rw [hm] at h
    cases h
  | exhausted =>
    rw [hm] at h
    cases h

theorem tryEnv_ok {f : Environment → Except BindingError Environment} {s s' : State}
    (h : tryEnv f s = .ok () s') : ∃ env, f s.env = .ok env ∧ s' = { s with env } := by
  unfold tryEnv at h
  split at h
  · rename_i env henv
    cases h
    exact ⟨env, henv, rfl⟩
  · cases h

/-- A test for interruption is a step of its own. -/
theorem checkInterrupt_bind {α : Type} (m : Eval α) (s : State) :
    (checkInterrupt >>= fun _ => m) s =
      if s.interrupted then .error .interrupted s else m s := by
  rw [bind_apply, checkInterrupt]
  by_cases hs : s.interrupted = true
  · rw [if_pos hs, if_pos hs]
  · rw [if_neg hs, if_neg hs]

/-- What follows a round of a loop. -/
def continuing (rest : Eval Completion) : Round → Eval Completion
  | .again => rest
  | .finish completion => pure completion

theorem repeating_succ (round : Eval Round) (fuel : Nat) :
    repeating round (fuel + 1) = round >>= continuing (repeating round fuel) := by
  funext s
  simp only [repeating, bind_apply]
  cases round s with
  | ok next s => cases next <;> rfl
  | error failure s => rfl
  | exhausted => rfl

theorem forEach_cons (round : Value → Eval Round) (item : Value) (items : List Value) :
    forEach round (item :: items) = round item >>= continuing (forEach round items) := by
  funext s
  simp only [forEach, bind_apply]
  cases round item s with
  | ok next s => cases next <;> rfl
  | error failure s => rfl
  | exhausted => rfl

end Eval

/-- The first statement of a list, and then the others unless the list ends with it. -/
theorem Evaluator.stmtsFrom_cons (ev : Evaluator) (last : Value) (st : Stmt) (body : List Stmt) :
    ev.stmtsFrom last (st :: body) = ev.step last st >>= fun next => match next with
      | .next last => ev.stmtsFrom last body
      | .leave completion => pure completion := by
  funext s
  simp only [stmtsFrom, Eval.bind_apply]
  cases ev.step last st s with
  | ok next s => cases next <;> rfl
  | error failure s => rfl
  | exhausted => rfl

namespace Congruence

variable {ctx : Context} {trace : Bool} {R : Reach → {α : Type} → Eval α → Eval α → Prop}
  {hosted : (Store → Reply) → Prop} {ev ev' : Evaluator} {r : Reach}

/-! ## Simple evaluations -/

theorem raise (hR : Congruence ctx.trace trace R hosted) {α : Type} (cause : Cause) :
    R r (Eval.raise cause : Eval α) (Eval.raise cause) :=
  hR.fail _

theorem ofExcept (hR : Congruence ctx.trace trace R hosted) {α : Type} (x : Except Cause α) :
    R r (Eval.ofExcept x) (Eval.ofExcept x) := by
  cases x with
  | ok a => exact hR.pure a
  | error cause => exact hR.raise cause

theorem ofResult (hR : Congruence ctx.trace trace R hosted) {α : Type} (x : Except Failure α) :
    R r (Eval.ofResult x) (Eval.ofResult x) := by
  cases x with
  | ok a => exact hR.pure a
  | error failure => exact hR.fail failure

theorem locating (hR : Congruence ctx.trace trace R hosted) {α : Type} {m m' : Eval α} (span : Span)
    (h : R r m m') : R r (Eval.locating span m) (Eval.locating span m') :=
  hR.mapError _ h

/-- An evaluation that reads the store first. -/
theorem withStore (hR : Congruence ctx.trace trace R hosted) {α : Type} {f f' : Store → Eval α}
    (h : ∀ st, R r (f st) (f' st)) : R r (fun s => f s.store s) (fun s => f' s.store s) :=
  hR.bind hR.store h

/-- An evaluation that looks up a name first. -/
theorem withValue (hR : Congruence ctx.trace trace R hosted) {α : Type} (name : String)
    {f f' : Option Value → Eval α} (h : ∀ v, R .expression (f v) (f' v)) :
    R .expression (fun s => f (s.env.get? name) s) (fun s => f' (s.env.get? name) s) :=
  hR.bind (hR.get name) h

/-- An evaluation that fails if it was interrupted before. -/
theorem unlessInterrupted (hR : Congruence ctx.trace trace R hosted) {α : Type} {m m' : Eval α}
    (h : R r m m') :
    R r (fun s => if s.interrupted then .error .interrupted s else m s)
      (fun s => if s.interrupted then .error .interrupted s else m' s) := by
  simp only [← Eval.checkInterrupt_bind]
  exact hR.bind hR.checkInterrupt fun _ => h

/-! ## Repetition -/

theorem continuing (hR : Congruence ctx.trace trace R hosted) {rest rest' : Eval Completion}
    (h : R r rest rest') (next : Eval.Round) :
    R r (Eval.continuing rest next) (Eval.continuing rest' next) := by
  cases next with
  | again => exact h
  | finish completion => exact hR.pure completion

/-- A loop over items, by induction on those that are left. -/
theorem forEach (hR : Congruence ctx.trace trace R hosted)
    {round round' : Value → Eval Eval.Round} (h : ∀ item, R r (round item) (round' item))
    (items : List Value) :
    R r (Eval.forEach round items) (Eval.forEach round' items) := by
  induction items with
  | nil => exact hR.pure _
  | cons item items ih =>
    rw [Eval.forEach_cons, Eval.forEach_cons]
    exact hR.bind (h item) fun next => hR.continuing ih next

/-! ## Lists of phrases -/

theorem exprs (hR : Congruence ctx.trace trace R hosted) (h : ev.Related R ev') (es : List Expr) :
    R .expression (ev.exprs es) (ev'.exprs es) := by
  induction es with
  | nil => exact hR.pure _
  | cons e es ih =>
    refine hR.bind (h.expr e) fun v => ?_
    exact hR.bind ih fun vs => hR.pure _

theorem entries (hR : Congruence ctx.trace trace R hosted) (h : ev.Related R ev')
    (es : List (String × Expr)) : R .expression (ev.entries es) (ev'.entries es) := by
  induction es with
  | nil => exact hR.pure _
  | cons e es ih =>
    refine hR.bind (h.expr e.2) fun v => ?_
    exact hR.bind ih fun vs => hR.pure _

/-- One statement of a list. -/
theorem step (hR : Congruence ctx.trace trace R hosted) (h : ev.Related R ev') (last : Value)
    (st : Stmt) : R .statement (ev.step last st) (ev'.step last st) := by
  unfold Evaluator.step
  split
  · rename_i span test body
    refine hR.bind hR.checkInterrupt fun _ => ?_
    refine hR.bind (hR.ofExpression (hR.locating span (h.expr test))) fun guard => ?_
    split
    · exact hR.bind (h.block body) fun completion => hR.pure _
    · exact hR.pure _
  · rename_i span kind _
    refine hR.bind (h.stmt (.node span kind)) fun completion => ?_
    split <;> exact hR.pure _

/-- A list of statements, by induction on those that are left. -/
theorem stmtsFrom (hR : Congruence ctx.trace trace R hosted) (h : ev.Related R ev') (last : Value)
    (body : List Stmt) : R .statement (ev.stmtsFrom last body) (ev'.stmtsFrom last body) := by
  induction body generalizing last with
  | nil => exact hR.pure _
  | cons st body ih =>
    rw [Evaluator.stmtsFrom_cons, Evaluator.stmtsFrom_cons]
    refine hR.bind (hR.step h last st) fun next => ?_
    cases next with
    | next last => exact ih last
    | leave completion => exact hR.pure completion

theorem stmts (hR : Congruence ctx.trace trace R hosted) (h : ev.Related R ev') (body : List Stmt) :
    R .statement (ev.stmts body) (ev'.stmts body) :=
  hR.stmtsFrom h .null body

end Congruence

end ReactiveScript
