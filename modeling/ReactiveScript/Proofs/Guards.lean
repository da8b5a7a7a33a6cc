import ReactiveScript.Proofs.Preservation

/-!
# Properties of every environment

A property that a law of environments keeps holds at the end of an evaluation, and it holds wherever
a part of the evaluation starts. The latter is said of evaluators that test the property before each
expression, statement, block and call, and do something else where it fails
(`Evaluator.guarded`): their runs are the same, because no test ever fails.
-/

namespace ReactiveScript

/-- Two evaluations that do the same in environments with a property, and leave environments that
are related to those they found. -/
def Eval.SameWhere {α : Type} (pre : Environment → Prop) (E : Environment → Environment → Prop)
    (m m' : Eval α) : Prop :=
  m.Keeps pre E ∧ ∀ s, pre s.env → m' s = m s

/-- Does something else where the environment does not have a property. -/
def Eval.guarded {α : Type} (holds : Environment → Prop) [DecidablePred holds]
    (m trap : Eval α) : Eval α := fun s =>
  if holds s.env then m s else trap s

namespace Evaluator

variable (holds : Environment → Prop) [DecidablePred holds]

/-- Does something else wherever an evaluation would start in an environment without a property. -/
def guarded (ev trap : Evaluator) : Evaluator where
  expr e := (ev.expr e).guarded holds (trap.expr e)
  stmt st := (ev.stmt st).guarded holds (trap.stmt st)
  block body := (ev.block body).guarded holds (trap.block body)
  call f args receiver := (ev.call f args receiver).guarded holds (trap.call f args receiver)
  rounds := ev.rounds

/-- The evaluator of a level with guards on every level. -/
def guardedLevel (trap : Evaluator) (ctx : Context) : Nat → Evaluator
  | 0 => empty
  | n + 1 => (next ctx (guardedLevel trap ctx n)).guarded holds trap

end Evaluator

namespace Eval.SameWhere

variable {pre : Environment → Prop} {E : Reach → Environment → Environment → Prop} {r : Reach}
  {α β : Type} {m m' : Eval α} {f f' : α → Eval β}

/-- What follows does the same, because it starts where the property still holds. -/
theorem bind (law : EnvironmentLaw pre E) (hm : m.SameWhere pre (E r) m')
    (hf : ∀ a, (f a).SameWhere pre (E r) (f' a)) :
    (m >>= f).SameWhere pre (E r) (m' >>= f') := by
  refine ⟨law.keeps_bind hm.1 fun a => (hf a).1, fun s hs => ?_⟩
  have hkept := hm.1 s hs
  rw [Eval.bind_apply, Eval.bind_apply, hm.2 s hs]
  generalize m s = o at hkept
  cases hkept with
  | ok h => exact (hf _).2 _ (law.pre_of hs h)
  | error | exhausted => rfl

theorem attempt (hm : m.SameWhere pre (E r) m') :
    m.attempt.SameWhere pre (E r) m'.attempt := by
  refine ⟨EnvironmentLaw.keeps_attempt hm.1, fun s hs => ?_⟩
  unfold Eval.attempt
  rw [hm.2 s hs]

theorem inBlock (law : EnvironmentLaw pre E) (hm : m.SameWhere pre (E .owner) m') :
    (Eval.inBlock m).SameWhere pre (E .statement) (Eval.inBlock m') := by
  refine ⟨law.keeps_inBlock hm.1, fun s hs => ?_⟩
  unfold Eval.inBlock
  rw [hm.2 { s with env := s.env.pushBlock } (law.enterBlock hs)]

theorem inCall (law : EnvironmentLaw pre E) (f : Function) (self : Value)
    (hm : m.SameWhere pre (E .owner) m') :
    (Eval.inCall f self m).SameWhere pre (E .call) (Eval.inCall f self m') := by
  refine ⟨law.keeps_inCall f self hm.1, fun s hs => ?_⟩
  unfold Eval.inCall
  split
  · rfl
  · rename_i env henv
    rw [hm.2 { s with env := env } (law.enterCall hs henv)]

/-- A test that never fails changes nothing. -/
theorem guarded {E : Environment → Environment → Prop} {holds : Environment → Prop}
    [DecidablePred holds] {trap : Eval α} (hholds : ∀ env, pre env → holds env)
    (hm : m.SameWhere pre E m') : m.SameWhere pre E (m'.guarded holds trap) := by
  refine ⟨hm.1, fun s hs => ?_⟩
  unfold Eval.guarded
  rw [if_pos (hholds s.env hs), hm.2 s hs]

end Eval.SameWhere

namespace EnvironmentLaw

variable {pre : Environment → Prop} {E : Reach → Environment → Environment → Prop}
  {holds : Environment → Prop} [DecidablePred holds]

/-- Equal parts are put together to equal evaluations, under every law. -/
theorem sameCongruence (law : EnvironmentLaw pre E) (trace : Bool) :
    SessionCongruence trace trace fun r _ m m' => Eval.SameWhere pre (E r) m m' :=
  have keeps := law.congruence trace trace
  { ofCall := fun hm => ⟨law.keeps_ofCall hm.1, hm.2⟩
    ofExpression := fun hm => ⟨law.keeps_ofExpression hm.1, hm.2⟩
    ofStatement := fun hm => ⟨law.keeps_ofStatement hm.1, hm.2⟩
    stop := ⟨keeps.stop, fun _ _ => rfl⟩
    pure := fun a => ⟨keeps.pure a, fun _ _ => rfl⟩
    bind := .bind law
    fail := fun failure => ⟨keeps.fail failure, fun _ _ => rfl⟩
    mapError := fun f hm =>
      ⟨keeps_mapError f hm.1, fun s hs => congrArg (·.mapError f) (hm.2 s hs)⟩
    attempt := .attempt
    checkInterrupt := ⟨keeps.checkInterrupt, fun _ _ => rfl⟩
    store := ⟨keeps.store, fun _ _ => rfl⟩
    tryWrite := fun plan => ⟨keeps.tryWrite plan, fun _ _ => rfl⟩
    allocate := fun f hf => ⟨keeps.allocate f hf, fun _ _ => rfl⟩
    hostCall := fun name f hf => ⟨keeps.hostCall name f hf, fun _ _ => rfl⟩
    emit := fun event => ⟨keeps.emit event, fun _ _ => rfl⟩
    emitIf := fun event hevent => ⟨keeps.emitIf event hevent, fun _ _ => rfl⟩
    exports := fun a names => ⟨keeps.exports a names, fun _ _ => rfl⟩
    get := fun name => ⟨keeps.get name, fun _ _ => rfl⟩
    capture := ⟨keeps.capture, fun _ _ => rfl⟩
    assignVariable := fun name v => ⟨keeps.assignVariable name v, fun _ _ => rfl⟩
    register := fun targets handler => ⟨keeps.register targets handler, fun _ _ => rfl⟩
    declare := fun mode name v span => ⟨keeps.declare mode name v span, fun _ _ => rfl⟩
    define := fun name v mode => ⟨keeps.define name v mode, fun _ _ => rfl⟩
    setLocal := fun name v => ⟨keeps.setLocal name v, fun _ _ => rfl⟩
    inBlock := .inBlock law
    inCall := .inCall law
    takeNotification := by
      refine ⟨law.keeps_of_env_eq fun s => ?_, fun _ _ => rfl⟩
      unfold Eval.takeNotification Interpreter.takeNotification
      cases s.queue.next? <;> exact .ok rfl
    interrupt := ⟨law.keeps_of_env_eq fun _ => .ok rfl, fun _ _ => rfl⟩ }

/-- The tests of a property that a law keeps change no level. -/
theorem related_guardedLevel (law : EnvironmentLaw pre E) (hholds : ∀ env, pre env → holds env)
    (trap : Evaluator) (ctx : Context) (n : Nat) :
    (Evaluator.level ctx n).Related (fun r _ m m' => m.SameWhere pre (E r) m')
      (Evaluator.guardedLevel holds trap ctx n) := by
  have hR := (law.sameCongruence ctx.trace).toCongruence
  induction n with
  | zero => exact hR.empty
  | succ n ih =>
    have hnext : (Evaluator.next ctx (Evaluator.level ctx n)).Related _
        (Evaluator.next ctx (Evaluator.guardedLevel holds trap ctx n)) := hR.next ih
    rw [Evaluator.level_succ]
    exact {
      expr := fun e => (hnext.expr e).guarded hholds
      stmt := fun st => (hnext.stmt st).guarded hholds
      block := fun body => (hnext.block body).guarded hholds
      call := fun f args receiver => (hnext.call f args receiver).guarded hholds
      repeating := fun hround => hnext.repeating hround }

/-- A request is answered in the same way with the tests, and it leaves the property. -/
theorem after_guardedLevel (law : EnvironmentLaw pre E) (hholds : ∀ env, pre env → holds env)
    (hclear : ∀ env, pre env → pre env.clear) (trap : Evaluator) (visit : Visit) {s : State}
    (hs : pre s.env) :
    visit.after? (Evaluator.guardedLevel holds trap) s = visit.after? Evaluator.level s ∧
      ∀ s' ∈ visit.after? Evaluator.level s, pre s'.env := by
  obtain ⟨ctx, fuel, request⟩ := visit
  by_cases hrequest : request = .reset
  · subst hrequest
    have hreset : ∀ evaluator : Context → Nat → Evaluator,
        Visit.after? evaluator ⟨ctx, fuel, .reset⟩ s = some s.reset := fun _ => rfl
    rw [hreset, hreset]
    refine ⟨rfl, ?_⟩
    rintro s' hs'
    cases hs'
    exact hclear s.env hs
  · obtain ⟨hkeeps, hsame⟩ := (law.sameCongruence ctx.trace).perform
      (law.related_guardedLevel hholds trap ctx fuel) fuel hrequest
    unfold Visit.after?
    dsimp only
    rw [hsame s hs]
    refine ⟨rfl, ?_⟩
    have hkept := hkeeps s hs
    generalize request.perform (Evaluator.level ctx fuel) fuel s = o at hkept
    cases hkept with
    | ok h | error h =>
      rintro s' hs'
      cases hs'
      exact law.pre_of hs h
    | exhausted => exact fun s' hs' => by cases hs'

/-- A session is the same with the tests, and it leaves the property, by induction on the requests
that are left. -/
theorem serve_guardedLevel (law : EnvironmentLaw pre E) (hholds : ∀ env, pre env → holds env)
    (hclear : ∀ env, pre env → pre env.clear) (trap : Evaluator) (visits : List Visit)
    {s : State} (hs : pre s.env) :
    serve? (Evaluator.guardedLevel holds trap) visits s = serve? Evaluator.level visits s ∧
      ∀ s' ∈ serve? Evaluator.level visits s, pre s'.env := by
  induction visits generalizing s with
  | nil =>
    refine ⟨rfl, ?_⟩
    rintro s' hs'
    cases hs'
    exact hs
  | cons visit visits ih =>
    obtain ⟨hsame, hleaves⟩ := law.after_guardedLevel hholds hclear trap visit hs
    unfold serve?
    rw [hsame]
    cases hafter : visit.after? Evaluator.level s with
    | none =>
      rw [Option.bind_none, Option.bind_none]
      exact ⟨rfl, fun s' hs' => by cases hs'⟩
    | some s₁ => exact ih (hleaves s₁ hafter)

end EnvironmentLaw

end ReactiveScript
