import ReactiveScript.Proofs.Interruption
import ReactiveScript.Proofs.StandardHost
import ReactiveScript.Session

/-!
# Stray signals

Where programs and functions are scoped, no signal goes astray: no evaluation fails with a `break`
or a `continue` that no loop or switch expects, or with a `return` outside of a function. This holds
of all evaluations that a run consists of, also of those whose failure would be caught. It is
therefore said of evaluators that do something else in place of every such failure
(`Evaluator.diverting`): the detour is never taken.
-/

namespace ReactiveScript

/-- Whether a failure reports a stray signal. -/
def Failure.isStray : Failure → Bool
  | .raised .strayBreak _ | .raised .strayContinue _ | .raised .strayReturn _ => true
  | _ => false

theorem Failure.Legitimate.not_isStray {failure : Failure} {s : State}
    (h : failure.Legitimate .function s) : failure.isStray = false := by
  cases failure with
  | raised cause span => cases cause <;> first | rfl | cases h
  | interrupted => rfl

/-- An outcome without stray signals. It leaves a sound state; a result has a property, and a
failure reports no stray signal and is caught with a sound value. -/
inductive Outcome.InOrder {α : Type} (ctx : Context) (Q : State → α → Prop) :
    Outcome State Failure α → Prop where
  | ok {a : α} {s : State} (hsound : s.Sound ctx .function) (h : Q s a) : InOrder ctx Q (.ok a s)
  | error {failure : Failure} {s : State} (hsound : s.Sound ctx .function)
    (hstray : failure.isStray = false) (hvalue : s.store.Sound .function failure.thrownValue) :
    InOrder ctx Q (.error failure s)
  | exhausted : InOrder ctx Q .exhausted

/-! ## Detours -/

/-- What is done in place of a failure. -/
def Detour : Type 1 := (α : Type) → Failure → State → Outcome State Failure α

/-- Takes a detour in place of a stray signal. -/
def Eval.diverting {α : Type} (detour : Detour) (m : Eval α) : Eval α := fun s =>
  match m s with
  | .error failure s => if failure.isStray then detour α failure s else .error failure s
  | o => o

namespace Evaluator

/-- Takes a detour in place of every stray signal. -/
def diverting (detour : Detour) (ev : Evaluator) : Evaluator where
  expr e := (ev.expr e).diverting detour
  stmt st := (ev.stmt st).diverting detour
  block body := (ev.block body).diverting detour
  call f args receiver := (ev.call f args receiver).diverting detour
  rounds := ev.rounds

/-- The evaluator of a level that takes a detour in place of every stray signal on any level. -/
def divertingLevel (detour : Detour) (ctx : Context) : Nat → Evaluator
  | 0 => empty
  | n + 1 => (next ctx (divertingLevel detour ctx n)).diverting detour

end Evaluator

namespace Setting

/-- Functions and host code keep to the signals that functions may send. -/
def orderly (ctx : Context) (host : ctx.library.Sound .function) : Setting where
  ctx := ctx
  bodies := .function
  halts _ := False
  host := host
  flagged := False.elim

variable {ctx : Context} {host : ctx.library.Sound .function} {s : State} {α : Type}
  {m m' : Eval α} {Q : State → α → Prop} {detour : Detour}

theorem not_halted : ¬ (orderly ctx host).Halted s := by
  rintro ⟨t, ht, -⟩
  exact ht

namespace Agree

/-- In order, two runs that agree are the same. -/
theorem same (h : (orderly ctx host).Agree s m m' Q) (hs : s.Sound ctx .function) : m' s = m s := by
  rcases (h hs).1 with hsame | ⟨s₁, -, hhalted⟩
  · exact hsame
  · exact absurd hhalted not_halted

/-- The second run may as well take detours. -/
theorem diverting (h : (orderly ctx host).Agree s m m' Q) :
    (orderly ctx host).Agree s m (m'.diverting detour) Q := by
  intro hs
  have hmeets := (h hs).2
  refine ⟨Or.inl ?_, hmeets⟩
  unfold Eval.diverting
  rw [h.same hs]
  generalize m s = o at hmeets
  cases hmeets with
  | ok | exhausted => rfl
  | error _ _ hfailure => simp [hfailure.not_isStray]

theorem inOrder (h : (orderly ctx host).Agree s m m' Q) (hs : s.Sound ctx .function) :
    m' s = m s ∧ (m s).InOrder ctx Q := by
  refine ⟨h.same hs, ?_⟩
  have hmeets := (h hs).2
  generalize m s = o at hmeets
  cases hmeets with
  | ok _ hsound h => exact .ok hsound h
  | error _ hsound h => exact .error hsound h.not_isStray h.thrownValue
  | exhausted => exact .exhausted

end Agree

theorem alike_divertingLevel (detour : Detour) (n : Nat) :
    (orderly ctx host).Alike (Evaluator.level ctx n) (Evaluator.divertingLevel detour ctx n) := by
  induction n with
  | zero => exact (orderly ctx host).alike_empty
  | succ n ih =>
    have hnext := ih.succ
    exact {
      expr := fun he => (hnext.expr he).diverting
      stmt := fun hst => (hnext.stmt hst).diverting
      block := fun hbody => (hnext.block hbody).diverting
      call := fun hf hargs hreceiver => (hnext.call hf hargs hreceiver).diverting
      rounds := hnext.rounds
      idles := hnext.idles }

end Setting

/-! ## Programs and notifications -/

/-- The next notification is sound, and so is the state without it. -/
theorem State.Sound.takeNotification {ctx : Context} {bodies : Signals} {s s' : State}
    {task : Notification} (hs : s.Sound ctx bodies)
    (h : Interpreter.takeNotification s = some (task, s')) :
    s'.Sound ctx bodies ∧ s.Grows bodies s' ∧ task.Sound bodies s'.store := by
  unfold Interpreter.takeNotification at h
  split at h
  · cases h
  · rename_i queue hnext
    cases h
    obtain ⟨-, handle, hentries⟩ := TaskQueue.entries_of_next? hnext
    have htasks := hs.tasks
    rw [hentries, List.forall_mem_cons] at htasks
    exact ⟨{ hs with tasks := htasks.2 }, ⟨id, .refl _⟩, htasks.1⟩

namespace Setting

variable {ctx : Context} {host : ctx.library.Sound .function} {s : State} {ev ev' : Evaluator}

theorem Agree.programResult {c : Completion} (hc : (orderly ctx host).completion .none s c) :
    (orderly ctx host).Agree s (Interpreter.programResult c) (Interpreter.programResult c)
      (orderly ctx host).value := by
  obtain ⟨hallowed, hvalue⟩ := hc
  cases c with
  | normal v => exact .pure hvalue
  | broke | continued | returned => cases hallowed

namespace Alike

theorem execute (h : (orderly ctx host).Alike ev ev') {program : List Stmt}
    (hprogram : Stmt.areScoped .function .none program = true) :
    (orderly ctx host).Agree s (ev.execute program) (ev'.execute program)
      (orderly ctx host).value := by
  refine (Agree.emit _).bind fun _ s₁ _ _ => ?_
  refine (h.stmts hprogram).attempt.bind (fun r s₂ _ _ hr => ?_) fun _ _ hhalted =>
    absurd hhalted not_halted
  cases r with
  | ok c => exact Agree.programResult hr
  | error failure =>
    exact (Agree.emit _).bind fun _ s₃ hgrows _ => Agree.fail (Failure.Legitimate.grows hr hgrows)

theorem notifyHandler (h : (orderly ctx host).Alike ev ev') {task : Notification}
    (htask : task.Sound .function s.store) :
    (orderly ctx host).Agree s (ev.notifyHandler task) (ev'.notifyHandler task)
      fun _ _ => True := by
  have hcall := h.call htask.handler htask.args fun v (hv : v ∈ none) => by cases hv
  refine hcall.attempt.bind (fun r s₂ _ _ hr => ?_) fun _ _ hhalted => absurd hhalted not_halted
  cases r with
  | ok v => exact .pure trivial
  | error failure => exact (Agree.emit _).imp fun _ _ _ => trivial

theorem deliver (h : (orderly ctx host).Alike ev ev') (hs : s.Sound ctx .function)
    {task : Notification} (htask : task.Sound .function s.store) :
    ev'.deliver task s = ev.deliver task s ∧
      ∀ s' ∈ ev.deliver task s, s.Grows .function s' ∧ s'.Sound ctx .function := by
  have hnotify := h.notifyHandler htask
  unfold Evaluator.deliver
  rw [hnotify.same hs]
  refine ⟨rfl, ?_⟩
  have hmeets := (hnotify hs).2
  generalize ev.notifyHandler task s = o at hmeets
  cases hmeets with
  | ok hgrows hsound | error hgrows hsound =>
    rintro s' hs'
    cases hs'
    exact ⟨hgrows, hsound⟩
  | exhausted => exact fun s' hs' => by cases hs'

/-- One notification after the other, by induction on those that are allowed. -/
theorem drain (h : (orderly ctx host).Alike ev ev') (fuel ran : Nat) :
    (orderly ctx host).Agree s (ev.drain fuel ran) (ev'.drain fuel ran) fun _ _ => True := by
  induction fuel generalizing s ran with
  | zero => exact .stop
  | succ fuel ih =>
    refine Agree.unlessInterrupted fun _ hs => ?_
    cases htake : Interpreter.takeNotification s with
    | none => exact ⟨Or.inl rfl, .ok (.refl s) hs trivial⟩
    | some next =>
      obtain ⟨task, taken⟩ := next
      obtain ⟨hsound, hgrows, htask⟩ := hs.takeNotification htake
      obtain ⟨hsame, hdelivered⟩ := h.deliver hsound htask
      dsimp only
      rw [hsame]
      cases hdeliver : ev.deliver task taken with
      | none => exact ⟨Or.inl rfl, .exhausted⟩
      | some s₁ =>
        obtain ⟨hgrows', hsound'⟩ := hdelivered s₁ hdeliver
        obtain ⟨hsame', hmeets⟩ := ih (ran + 1) hsound'
        exact ⟨hsame', hmeets.of_grows (hgrows.trans hgrows')⟩

theorem runPending (h : (orderly ctx host).Alike ev ev') (fuel : Nat) :
    (orderly ctx host).Agree s (ev.runPending fuel) (ev'.runPending fuel) fun _ _ => True := by
  refine (h.drain fuel 0).bind fun ran s₁ _ _ => ?_
  split
  · exact (Agree.emit _).bind fun _ _ _ _ => .pure trivial
  · exact Agree.pure trivial

end Alike

/-- Statements, with what they let pass. -/
theorem agree_stmt_divertingLevel (host : ctx.library.Sound .function) (detour : Detour)
    (fuel : Nat) {here : Signals} {st : Stmt} (hst : st.isScoped .function here = true) :
    (orderly ctx host).Agree s ((Evaluator.level ctx fuel).stmt st)
      ((Evaluator.divertingLevel detour ctx fuel).stmt st)
      ((orderly ctx host).completion (st.kind.letsPass here)) := by
  cases fuel with
  | zero => exact .stop
  | succ fuel => exact ((alike_divertingLevel detour fuel).stmtRule hst).diverting

end Setting

/-- Scoped programs send no stray signals. Let all functions that a program can get hold of, from
the state or from the host, keep to the signals of functions. Then a run is the same if something
else is done in place of every stray signal: none comes up, in a program, in a notification or in a
call, nor in any part of them. What results is in order again. Statements complete as they are
scoped, a loop with neither a `break` nor a `continue`, and a switch without a `break`. -/
theorem scoped_programs_send_no_stray_signals (ctx : Context) (fuel : Nat) (s : State)
    (detour : Detour) (hlibrary : ctx.library.Sound .function) (hs : s.Sound ctx .function) :
    (∀ program, Stmt.areScoped .function .none program = true →
      (Evaluator.divertingLevel detour ctx fuel).execute program s =
        Interpreter.execute ctx fuel program s ∧
      (Interpreter.execute ctx fuel program s).InOrder ctx fun s v => s.store.Sound .function v) ∧
    ((Evaluator.divertingLevel detour ctx fuel).runPending fuel s =
        Interpreter.runPending ctx fuel s ∧
      (Interpreter.runPending ctx fuel s).InOrder ctx fun _ _ => True) ∧
    (∀ f args receiver, s.store.Sound .function f → (∀ v ∈ args, s.store.Sound .function v) →
      (∀ v ∈ receiver, s.store.Sound .function v) →
      (Evaluator.divertingLevel detour ctx fuel).call f args receiver s =
        Interpreter.callValue ctx fuel f args receiver s ∧
      (Interpreter.callValue ctx fuel f args receiver s).InOrder ctx fun s v =>
        s.store.Sound .function v) ∧
    ∀ (here : Signals) (st : Stmt), st.isScoped .function here = true →
      (Evaluator.divertingLevel detour ctx fuel).stmt st s = Interpreter.execStmt ctx fuel st s ∧
      (Interpreter.execStmt ctx fuel st s).InOrder ctx fun _ c =>
        here.allows c = true ∧ (st.kind.isLoop = true → c ≠ .broke ∧ c ≠ .continued) ∧
          (st.kind.isSwitch = true → c ≠ .broke) := by
  have hlevel : (Setting.orderly ctx hlibrary).Alike (Evaluator.level ctx fuel)
      (Evaluator.divertingLevel detour ctx fuel) := Setting.alike_divertingLevel detour fuel
  refine ⟨fun program hprogram => ?_, ?_,
    fun f args receiver hf hargs hreceiver => (hlevel.call hf hargs hreceiver).inOrder hs,
    fun here st hst => ?_⟩
  · rw [← Evaluator.execute_level]
    exact (hlevel.execute hprogram).inOrder hs
  · rw [← Evaluator.runPending_level]
    exact (hlevel.runPending fuel).inOrder hs
  · have hstmt := Setting.agree_stmt_divertingLevel (s := s) hlibrary detour fuel hst
    exact (hstmt.imp fun _ _ hc => StmtKind.allows_of_letsPass hc.1).inOrder hs

/-- A function with a loop in which it returns or goes on, and a loop with a switch in which both
are left by a `break`. -/
def tidyProgram : List Stmt :=
  let found := Expr.of (.call (Expr.of (.ident "first"))
    [Expr.of (.list [Expr.of (.literal .null), Expr.of (.literal (.bool true))])])
  [Stmt.of (.function (some "first") ["items"]
      [Stmt.of (.forOf ⟨some .constant, "item"⟩ (Expr.of (.ident "items"))
        (Stmt.of (.ifElse (Expr.of (.ident "item"))
          (Stmt.of (.ret (some (Expr.of (.ident "item"))))) (some (Stmt.of .continueLoop)))))]),
    Stmt.of (.whileLoop found
      (Stmt.of (.block [Stmt.of (.switch found [(none, [Stmt.of .breakLoop])]),
        Stmt.of .breakLoop]))),
    Stmt.of (.expression found)]

theorem scoped_programs_send_no_stray_signals_tidyProgram :
    Host.standardContext.library.Sound .function ∧
      Host.standardStart.Sound Host.standardContext .function ∧
      Stmt.areScoped .function .none tidyProgram = true ∧
      (Interpreter.execute Host.standardContext 10 tidyProgram Host.standardStart).value? =
        some (.bool true) ∧
      (Interpreter.execute Host.standardContext 10 tidyProgram Host.standardStart).InOrder
        Host.standardContext fun s v => s.store.Sound .function v :=
  ⟨Host.sound_standardLibrary, Host.sound_standardStart, rfl, by decide +kernel,
    ((scoped_programs_send_no_stray_signals Host.standardContext 10 Host.standardStart
      (fun _ _ _ => .exhausted) Host.sound_standardLibrary Host.sound_standardStart).1
        tidyProgram rfl).2⟩

/-- A `break` that no loop expects fails. -/
example : ∃ s, Interpreter.execute Host.standardContext 2 [Stmt.of .breakLoop] Host.standardStart =
    .error (.of .strayBreak) s := ⟨_, rfl⟩

end ReactiveScript
