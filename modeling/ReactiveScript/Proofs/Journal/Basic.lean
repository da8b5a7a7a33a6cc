import ReactiveScript.Proofs.Dispatch

/-!
# Journals of assignments

A journal is kept beside an evaluation. It lists the assignments to variables that the evaluation
executes, in their order, each with the state that it finds. The journal of a construct is put
together from those of its parts, in the order in which the rule for the construct evaluates them,
and only an assignment to a variable makes an entry: writes to lists and records, declarations and
the variables that a loop declares make none.

`Eval.Executes` says that a journal is the right one for an evaluation: the evaluation comes down to
a `Run` whose changes are those that the assignments in the journal make, one after the other.
-/

namespace ReactiveScript

/-! ## Executed assignments -/

/-- An assignment to a variable, in the state in which it is executed. -/
structure Assigned where
  /-- The name that is assigned to. -/
  name : String
  /-- The value. -/
  value : Value
  /-- The state that the assignment finds. -/
  before : State

/-- The assignment changes nothing: there is no variable of the name, or it is a constant, or it has
the value already. -/
def Assigned.Idle (a : Assigned) : Prop :=
  ∀ i b, a.before.env.position? a.name = some i →
    OrderedMap.find? (a.before.env.scope i).bindings a.name = some b →
    b.mode = .immutable ∨ b.value.sameValue a.value = true

/-- The changes that assignments make, in their order: none for one that is idle, and one for each
of the others. -/
inductive ChangesOf : List Assigned → List Change → Prop where
  | nil : ChangesOf [] []
  | idle {a : Assigned} {as : List Assigned} {changes : List Change} (h : a.Idle)
    (rest : ChangesOf as changes) : ChangesOf (a :: as) changes
  | change {a : Assigned} {as : List Assigned} {c : Change} {changes : List Change} {s' : State}
    (hname : c.mutation.name = a.name) (hnew : c.mutation.new = a.value)
    (h : c.Happens a.before s') (rest : ChangesOf as changes) : ChangesOf (a :: as) (c :: changes)

theorem ChangesOf.append {as as' : List Assigned} {changes changes' : List Change}
    (h : ChangesOf as changes) (h' : ChangesOf as' changes') :
    ChangesOf (as ++ as') (changes ++ changes') := by
  induction h with
  | nil => exact h'
  | idle hidle _ ih => exact .idle hidle ih
  | change hname hnew hc _ ih => exact .change hname hnew hc ih

/-- The assignments that an evaluation executes if it starts in a state. -/
def Journal := State → List Assigned

namespace Journal

/-- No assignment is executed. -/
def blank : Journal := fun _ => []

/-- One assignment is executed. -/
def entry (name : String) (v : Value) : Journal := fun s => [⟨name, v, s⟩]

/-- An evaluation with its journal, and then one that depends on its value. -/
def andThen {α : Type} (m : Eval α) (j : Journal) (k : α → Journal) : Journal := fun s =>
  j s ++ match m s with
    | .ok a s' => k a s'
    | .error _ _ | .exhausted => []

/-- An evaluation that executes no assignment, and then one that depends on its value. -/
def after {α : Type} (m : Eval α) (k : α → Journal) : Journal := andThen m blank k

/-- Nothing is executed after an interruption. -/
def unlessInterrupted (j : Journal) : Journal := fun s => if s.interrupted then [] else j s

/-- Inside a block of its own. -/
def inBlock (j : Journal) : Journal := fun s => j { s with env := s.env.pushBlock }

/-- Inside the scopes of a call, unless the call is refused. -/
def inCall (f : Function) (self : Value) (j : Journal) : Journal := fun s =>
  match s.env.beginCall f self with
  | .error _ => []
  | .ok env => j { s with env }

/-- What follows a round of a loop. -/
def continuing (rest : Journal) : Eval.Round → Journal
  | .again => rest
  | .finish _ => blank

/-- Rounds until one ends the loop. -/
def repeating (round : Eval Eval.Round) (j : Journal) : (fuel : Nat) → Journal
  | 0 => blank
  | fuel + 1 => andThen round j (continuing (repeating round j fuel))

/-- One round for each item, until a round ends the loop. -/
def forEach (round : Value → Eval Eval.Round) (j : Value → Journal) : List Value → Journal
  | [] => blank
  | item :: items => andThen (round item) (j item) (continuing (forEach round j items))

end Journal

/-- The evaluation executes the assignments in the journal, and their changes are the only ones on
the way. -/
def Eval.Executes {α : Type} (r : Reach) (m : Eval α) (j : Journal) : Prop :=
  ∀ s, (m s).Leaves fun s' => ∃ changes, Run r s changes s' ∧ ChangesOf (j s) changes

namespace Eval.Executes

variable {r : Reach} {α β : Type} {m : Eval α} {j : Journal}

theorem ofCall (h : m.Executes .call j) : m.Executes .expression j :=
  fun s => (h s).imp fun _ ⟨changes, hrun, hmade⟩ => ⟨changes, hrun.ofCall, hmade⟩

theorem ofExpression (h : m.Executes .expression j) : m.Executes .statement j :=
  fun s => (h s).imp fun _ ⟨changes, hrun, hmade⟩ => ⟨changes, hrun.ofExpression, hmade⟩

theorem ofStatement (h : m.Executes .statement j) : m.Executes .owner j :=
  fun s => (h s).imp fun _ ⟨changes, hrun, hmade⟩ => ⟨changes, hrun.ofStatement, hmade⟩

/-! ## Elementary steps -/

/-- Steps that change no variable by assignment. -/
theorem of_quiet (h : ∀ s, (m s).Leaves fun s' => Run r s [] s') : m.Executes r .blank :=
  fun s => (h s).imp fun _ hrun => ⟨[], hrun, .nil⟩

/-- Steps that touch neither the variables nor the queue. -/
theorem of_still (h : ∀ s, (m s).Leaves fun s' => s'.env = s.env ∧ s'.queue = s.queue) :
    m.Executes r .blank :=
  of_quiet fun s => (h s).imp fun _ ⟨henv, hqueue⟩ => .still henv hqueue

theorem stop : (Eval.stop : Eval α).Executes r .blank := of_still fun _ => .exhausted

protected theorem pure (a : α) : (pure a : Eval α).Executes r .blank :=
  of_still fun _ => .ok ⟨rfl, rfl⟩

theorem fail (failure : Failure) : (Eval.fail failure : Eval α).Executes r .blank :=
  of_still fun _ => .error ⟨rfl, rfl⟩

theorem raise (cause : Cause) : (Eval.raise cause : Eval α).Executes r .blank := fail _

theorem ofExcept (x : Except Cause α) : (Eval.ofExcept x).Executes r .blank := by
  cases x with
  | ok a => exact .pure a
  | error cause => exact raise cause

theorem ofResult (x : Except Failure α) : (Eval.ofResult x).Executes r .blank := by
  cases x with
  | ok a => exact .pure a
  | error failure => exact fail failure

theorem checkInterrupt : Eval.checkInterrupt.Executes r .blank :=
  of_still fun _ => leaves_checkInterrupt ⟨rfl, rfl⟩

theorem store : Eval.store.Executes r .blank := of_still fun _ => .ok ⟨rfl, rfl⟩

theorem tryWrite (plan : Store → Except Cause Store.Write) :
    (Eval.tryWrite plan).Executes r .blank :=
  of_still fun _ => leaves_tryWrite ⟨rfl, rfl⟩ fun _ => ⟨rfl, rfl⟩

theorem allocate (f : Store → Value × Store) : (Eval.allocate f).Executes r .blank :=
  of_still fun _ => .ok ⟨rfl, rfl⟩

theorem hostCall (name : String) (f : Store → Reply) : (Eval.hostCall name f).Executes r .blank :=
  of_still fun _ => leaves_hostCall ⟨rfl, rfl⟩

theorem emit (event : Event) : (Eval.emit event).Executes r .blank :=
  of_still fun _ => .ok ⟨rfl, rfl⟩

theorem emitIf (trace : Bool) (event : Nat → Event) :
    Eval.Executes r (fun s => Eval.emitIf trace (event s.env.callDepth) s) .blank :=
  of_still fun _ => by cases trace <;> exact .ok ⟨rfl, rfl⟩

/-- A change of the environment that may be refused. -/
theorem tryEnv {f : Environment → Except BindingError Environment}
    (h : ∀ (s : State) env, f s.env = .ok env → Run r s [] { s with env }) :
    (Eval.tryEnv f).Executes r .blank := by
  refine of_quiet fun s => ?_
  unfold Eval.tryEnv
  split
  · rename_i env henv
    exact .ok (h s env henv)
  · exact .error (.still rfl rfl)

theorem declare (mode : Mode) (name : String) (v : Value) (span : Option Span) :
    (Eval.tryEnv fun env => env.declare mode name v span).Executes .statement .blank :=
  tryEnv fun _ _ h => .declare h

theorem define (name : String) (v : Value) (mode : Mode) :
    (Eval.modifyEnv fun env => env.define name v mode).Executes .owner .blank :=
  of_quiet fun s => .ok (.define s name v mode)

theorem setLocal (name : String) (v : Value) :
    (Eval.modifyEnv fun env => env.setLocal name v).Executes .owner .blank :=
  of_quiet fun s => .ok (.setLocal s name v)

/-- The one step that makes an entry. -/
theorem assignVariable (name : String) (v : Value) :
    (Rule.assignVariable name v).Executes .expression (.entry name v) := by
  intro s
  have h := Rule.assignment name v s
  generalize Rule.assignVariable name v s = o at h
  cases h with
  | refused h =>
    have hidle : (⟨name, v, s⟩ : Assigned).Idle := fun i b hi hb => Or.inl (h i b hi hb)
    exact .error ⟨[], .still rfl rfl, .idle hidle .nil⟩
  | @same i b hi hb _ hsame =>
    have hidle : (⟨name, v, s⟩ : Assigned).Idle := by
      intro i' b' hi' hb'
      obtain rfl : i = i' := Option.some.inj (hi.symm.trans hi')
      obtain rfl : b = b' := Option.some.inj (hb.symm.trans hb')
      exact Or.inr hsame
    exact .ok ⟨[], .still rfl rfl, .idle hidle .nil⟩
  | @changed c s' hname hnew h => exact .ok ⟨[c], .change h, .change hname hnew h .nil⟩

/-! ## Combinations -/

protected theorem bind {f : α → Eval β} {k : α → Journal} (hm : m.Executes r j)
    (hf : ∀ a, (f a).Executes r (k a)) : (m >>= f).Executes r (.andThen m j k) := by
  intro s
  have hfirst := hm s
  rw [Eval.bind_apply]
  unfold Journal.andThen
  generalize m s = o at hfirst
  cases hfirst with
  | @ok a s₁ h =>
    obtain ⟨changes, hrun, hmade⟩ := h
    refine (hf a s₁).imp fun s₂ hsecond => ?_
    obtain ⟨changes', hrun', hmade'⟩ := hsecond
    exact ⟨changes ++ changes', hrun.trans hrun', hmade.append hmade'⟩
  | error h =>
    refine .error ?_
    rw [List.append_nil]
    exact h
  | exhausted => exact .exhausted

/-- What follows executes no assignment. -/
theorem bind_blank {f : α → Eval β} (hm : m.Executes r j) (hf : ∀ a, (f a).Executes r .blank) :
    (m >>= f).Executes r j := by
  have hblank : Journal.andThen m j (fun _ => .blank) = j := by
    funext s
    unfold Journal.andThen
    cases m s <;> exact List.append_nil _
  rw [← hblank]
  exact hm.bind hf

theorem mapError (f : Failure → Failure) (hm : m.Executes r j) :
    Eval.Executes r (fun s => (m s).mapError f) j :=
  fun s => (hm s).mapError

theorem locating (span : Span) (hm : m.Executes r j) : (Eval.locating span m).Executes r j :=
  hm.mapError _

theorem attempt (hm : m.Executes r j) : m.attempt.Executes r j := fun s => leaves_attempt (hm s)

theorem unlessInterrupted (hm : m.Executes r j) :
    Eval.Executes r (fun s => if s.interrupted then .error .interrupted s else m s)
      (.unlessInterrupted j) := by
  intro s
  unfold Journal.unlessInterrupted
  by_cases hs : s.interrupted = true
  · simp only [if_pos hs]
    exact .error ⟨[], .still rfl rfl, .nil⟩
  · simp only [if_neg hs]
    exact hm s

theorem inBlock (hm : m.Executes .owner j) : (Eval.inBlock m).Executes .statement (.inBlock j) := by
  intro s
  refine ((hm { s with env := s.env.pushBlock }).imp fun s' hs' => ?_).mapState
  obtain ⟨changes, hrun, hmade⟩ := hs'
  exact ⟨changes, hrun.block, hmade⟩

theorem inCall (f : Function) (self : Value) (hm : m.Executes .owner j) :
    (Eval.inCall f self m).Executes .call (.inCall f self j) := by
  intro s
  unfold Eval.inCall Journal.inCall
  cases hcall : s.env.beginCall f self with
  | error e => exact .error ⟨[], .still rfl rfl, .nil⟩
  | ok env =>
    refine ((hm { s with env }).imp fun s' hs' => ?_).mapState
    obtain ⟨changes, hrun, hmade⟩ := hs'
    exact ⟨changes, hrun.call hcall, hmade⟩

/-- A choice between two evaluations. -/
protected theorem ite {c : Prop} [Decidable c] {m' : Eval α} {j' : Journal} (h : m.Executes r j)
    (h' : m'.Executes r j') : (if c then m else m').Executes r (if c then j else j') := by
  split
  · exact h
  · exact h'

theorem continuing {rest : Eval Completion} (h : rest.Executes r j) (next : Eval.Round) :
    (Eval.continuing rest next).Executes r (.continuing j next) := by
  cases next with
  | again => exact h
  | finish completion => exact .pure completion

/-- A loop, by induction on the rounds that are allowed. -/
theorem repeating {round : Eval Eval.Round} (h : round.Executes r j) (fuel : Nat) :
    (Eval.repeating round fuel).Executes r (.repeating round j fuel) := by
  induction fuel with
  | zero => exact stop
  | succ fuel ih =>
    rw [Eval.repeating_succ]
    exact h.bind fun next => ih.continuing next

/-- A loop over items, by induction on those that are left. -/
theorem forEach {round : Value → Eval Eval.Round} {k : Value → Journal}
    (h : ∀ item, (round item).Executes r (k item)) (items : List Value) :
    (Eval.forEach round items).Executes r (.forEach round k items) := by
  induction items with
  | nil => exact .pure _
  | cons item items ih =>
    rw [Eval.forEach_cons]
    exact (h item).bind fun next => ih.continuing next

end Eval.Executes

/-! ## Journals of evaluators -/

/-- The journals of all phrases. -/
structure Journals where
  /-- The journal of an expression. -/
  expr : Expr → Journal
  /-- The journal of a statement. -/
  stmt : Stmt → Journal
  /-- The journal of statements in a block of their own. -/
  block : List Stmt → Journal
  /-- The journal of a call. -/
  call : Value → List Value → Option Value → Journal

/-- No phrase executes an assignment. -/
def Journals.blank : Journals where
  expr _ := .blank
  stmt _ := .blank
  block _ := .blank
  call _ _ _ := .blank

/-- The evaluator executes the assignments in the journals. -/
structure Journals.Kept (js : Journals) (ev : Evaluator) : Prop where
  expr (e : Expr) : (ev.expr e).Executes .expression (js.expr e)
  stmt (st : Stmt) : (ev.stmt st).Executes .statement (js.stmt st)
  block (body : List Stmt) : (ev.block body).Executes .statement (js.block body)
  call (f : Value) (args : List Value) (receiver : Option Value) :
    (ev.call f args receiver).Executes .call (js.call f args receiver)

/-! ## Lists of phrases -/

namespace Journal

variable (ev : Evaluator) (js : Journals)

/-- Expressions from left to right. -/
def exprs : List Expr → Journal
  | [] => blank
  | e :: es => andThen (ev.expr e) (js.expr e) fun _ => exprs es

/-- The entries of a record from left to right. -/
def entries : List (String × Expr) → Journal
  | [] => blank
  | (_, e) :: es => andThen (ev.expr e) (js.expr e) fun _ => entries es

/-- One statement of a list. -/
def step : Stmt → Journal
  | .node span (.whenGuard test body) =>
    after Eval.checkInterrupt fun _ =>
      andThen (Eval.locating span (ev.expr test)) (js.expr test) fun guard =>
        if guard.isTruthy then js.block body else blank
  | .node span kind => js.stmt (.node span kind)

/-- The statements of a list in order. -/
def stmtsFrom (last : Value) : List Stmt → Journal
  | [] => blank
  | st :: body => andThen (ev.step last st) (step ev js st) fun next => match next with
    | .next last => stmtsFrom last body
    | .leave _ => blank

/-- The statements of a list in order, after no others. -/
def stmts (body : List Stmt) : Journal := stmtsFrom ev js .null body

end Journal

namespace Journals.Kept

open Eval (Executes)

variable {ev : Evaluator} {js : Journals}

theorem exprs (h : js.Kept ev) (es : List Expr) :
    (ev.exprs es).Executes .expression (.exprs ev js es) := by
  induction es with
  | nil => exact .pure _
  | cons e es ih => exact (h.expr e).bind fun _ => ih.bind_blank fun _ => .pure _

theorem entries (h : js.Kept ev) (es : List (String × Expr)) :
    (ev.entries es).Executes .expression (.entries ev js es) := by
  induction es with
  | nil => exact .pure _
  | cons e es ih => exact (h.expr e.2).bind fun _ => ih.bind_blank fun _ => .pure _

/-- One statement of a list. -/
theorem step (h : js.Kept ev) (last : Value) (st : Stmt) :
    (ev.step last st).Executes .statement (.step ev js st) := by
  obtain ⟨span, kind⟩ := st
  cases kind with
  | whenGuard test body =>
    refine Executes.checkInterrupt.bind fun _ => ?_
    refine ((h.expr test).locating span).ofExpression.bind fun guard => ?_
    exact .ite ((h.block body).bind_blank fun completion => .pure _) (.pure _)
  | _ =>
    refine (h.stmt _).bind_blank fun completion => ?_
    cases completion <;> exact .pure _

/-- A list of statements, by induction on those that are left. -/
theorem stmtsFrom (h : js.Kept ev) (last : Value) (body : List Stmt) :
    (ev.stmtsFrom last body).Executes .statement (.stmtsFrom ev js last body) := by
  induction body generalizing last with
  | nil => exact .pure _
  | cons st body ih =>
    rw [Evaluator.stmtsFrom_cons]
    refine (h.step last st).bind fun next => ?_
    cases next with
    | next last => exact ih last
    | leave completion => exact .pure completion

theorem stmts (h : js.Kept ev) (body : List Stmt) :
    (ev.stmts body).Executes .statement (.stmts ev js body) :=
  h.stmtsFrom .null body

end Journals.Kept

end ReactiveScript
