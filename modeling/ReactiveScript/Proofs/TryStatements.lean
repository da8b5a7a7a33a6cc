import ReactiveScript.Proofs.Chain
import ReactiveScript.Proofs.Results

/-!
# Try statements

The block of a `try` statement runs first, in a scope of its own. The handler runs if the block
raised an error, from the state that the block left, in a new scope that holds the caught value. The
finalizer runs last. Which of the three decides what the statement comes to is said by
`Rule.Finishes`: the finalizer if it completes abruptly, is interrupted, or fails after a block that
did not; the handler or else the block in all other cases.
-/

namespace ReactiveScript

open Interpreter (execStmt execStmts execBlock)

/-- The state in which a handler starts: a new block that holds the caught value, if the handler
has a parameter. -/
def State.catching (s : State) (param : Option String) (failure : Failure) : State :=
  { s with
    env := match param with
      | some name => s.env.pushBlock.define name failure.thrownValue .blockMutable
      | none => s.env.pushBlock
    events := s.events.push (.caught failure.message) }

namespace Rule

variable {ctx : Context} {fuel : Nat} {s s' : State}

/-- How a handler deals with what a block came to. It runs if the block raised an error, and leaves
its scope however it ends; otherwise what the block came to stays, and so does the state. -/
inductive Handles (ctx : Context) (fuel : Nat) : Option (Option String × List Stmt) →
    Except Failure Completion → State → Except Failure Completion → State → Prop where
  | ran {param : Option String} {body : List Stmt} {failure : Failure} {s s' : State}
    {outcome : Except Failure Completion} (hraised : failure ≠ .interrupted)
    (hbody : (execStmts ctx fuel body).attempt (s.catching param failure) = .ok outcome s') :
    Handles ctx fuel (some (param, body)) (.error failure) s outcome { s' with env := s'.env.pop }
  | absent {result : Except Failure Completion} {s : State} :
    Handles ctx fuel none result s result s
  | completed {clause : Option String × List Stmt} {c : Completion} {s : State} :
    Handles ctx fuel (some clause) (.ok c) s (.ok c) s
  | interrupted {clause : Option String × List Stmt} {s : State} :
    Handles ctx fuel (some clause) (.error .interrupted) s (.error .interrupted) s

/-- How a finalizer deals with what a block (`result`) and then its handler (`outcome`) came to. -/
inductive Finishes (ctx : Context) (fuel : Nat) (result outcome : Except Failure Completion)
    (s : State) : Option (List Stmt) → Except Failure Completion → State → Prop where
  | absent : Finishes ctx fuel result outcome s none outcome s
  | normal {body : List Stmt} {v : Value} {s' : State}
    (hbody : execBlock ctx fuel body s = .ok (.normal v) s') :
    Finishes ctx fuel result outcome s (some body) outcome s'
  | abrupt {body : List Stmt} {c : Completion} {s' : State} (habrupt : c.isAbrupt = true)
    (hbody : execBlock ctx fuel body s = .ok c s') :
    Finishes ctx fuel result outcome s (some body) (.ok c) s'
  | interrupted {body : List Stmt} {s' : State}
    (hbody : execBlock ctx fuel body s = .error .interrupted s') :
    Finishes ctx fuel result outcome s (some body) (.error .interrupted) s'
  | failed {body : List Stmt} {c : Completion} {failure : Failure} {s' : State}
    (hresult : result = .ok c) (hbody : execBlock ctx fuel body s = .error failure s') :
    Finishes ctx fuel result outcome s (some body) (.error failure) s'
  | discarded {body : List Stmt} {first failure : Failure} {s' : State}
    (hresult : result = .error first) (hraised : failure ≠ .interrupted)
    (hbody : execBlock ctx fuel body s = .error failure s') :
    Finishes ctx fuel result outcome s (some body) outcome
      { s' with events := s'.events.push (.discarded failure.message) }

/-- A run of a `try` statement: the block, then the handler, then the finalizer, each from the state
that is left by the one before. -/
def TryRuns (ctx : Context) (fuel : Nat) (block : List Stmt)
    (handler : Option (Option String × List Stmt)) (finalizer : Option (List Stmt)) (s : State)
    (r : Except Failure Completion) (s' : State) : Prop :=
  ∃ result s₁ outcome s₂,
    (Eval.inBlock (execStmts ctx fuel block)).attempt s = .ok result s₁ ∧
      Handles ctx (fuel + 1) handler result s₁ outcome s₂ ∧
      Finishes ctx (fuel + 1) result outcome s₂ finalizer r s'

/-! ## Handlers -/

/-- The handler of a block that raised an error sets up its scope, runs in it and leaves it. -/
theorem handled_raised (ev : Evaluator) {failure : Failure} (hraised : failure ≠ .interrupted)
    (param : Option String) (body : List Stmt) (s : State) :
    handled ev (.error failure) (some (param, body)) s =
      ((ev.stmts body).attempt (s.catching param failure)).mapState
        fun s => { s with env := s.env.pop } := by
  have hclause : catchClause ev param body failure.thrownValue
        { s with events := s.events.push (.caught failure.message) } =
      (ev.stmts body (s.catching param failure)).mapState fun s => { s with env := s.env.pop } := by
    cases param <;> rfl
  cases failure with
  | interrupted => exact absurd rfl hraised
  | raised cause span =>
    show (catchClause ev param body _).attempt _ = _
    unfold Eval.attempt
    rw [hclause]
    cases ev.stmts body (s.catching param (.raised cause span)) <;> rfl

/-- The handler, as it is described by `Handles`. -/
theorem handled_eq_ok (result : Except Failure Completion)
    (handler : Option (Option String × List Stmt)) (outcome : Except Failure Completion) :
    handled (Evaluator.level ctx fuel) result handler s = .ok outcome s' ↔
      Handles ctx fuel handler result s outcome s' := by
  constructor
  · intro h
    rcases handler with _ | ⟨param, body⟩
    · cases h
      exact .absent
    rcases result with failure | c
    · by_cases hraised : failure = .interrupted
      · subst hraised
        cases h
        exact .interrupted
      · rw [handled_raised _ hraised] at h
        cases hbody :
            ((Evaluator.level ctx fuel).stmts body).attempt (s.catching param failure) with
        | ok outcome s₁ =>
          rw [hbody] at h
          cases h
          exact .ran hraised hbody
        | error _ _ => exact absurd hbody Eval.attempt_ne_error
        | exhausted =>
          rw [hbody] at h
          cases h
    · cases h
      exact .completed
  · intro h
    cases h with
    | absent => rfl
    | completed => rfl
    | interrupted => rfl
    | ran hraised hbody =>
      have hstmts : ((Evaluator.level ctx fuel).stmts _).attempt _ = _ := hbody
      rw [handled_raised _ hraised, hstmts]
      rfl

/-- What a handler fails with is its result. -/
theorem handled_ne_error (ev : Evaluator) (result : Except Failure Completion)
    (handler : Option (Option String × List Stmt)) (failure : Failure) (s s' : State) :
    handled ev result handler s ≠ .error failure s' := by
  cases handler with
  | none => exact fun h => by cases h
  | some clause =>
    cases result with
    | ok c => exact fun h => by cases h
    | error first =>
      by_cases hraised : first = .interrupted
      · subst hraised
        exact fun h => by cases h
      · obtain ⟨param, body⟩ := clause
        rw [handled_raised ev hraised]
        intro h
        cases hbody : (ev.stmts body).attempt (s.catching param first) with
        | error _ _ => exact Eval.attempt_ne_error hbody
        | ok _ _ | exhausted =>
          rw [hbody] at h
          cases h

/-! ## Finalizers -/

/-- What the result of a finalizer means for the statement. -/
def settle (blockFailed : Bool) (outcome : Except Failure Completion) :
    Except Failure Completion → Eval Completion
  | .ok completion => if completion.isAbrupt then pure completion else Eval.ofResult outcome
  | .error failure =>
    if blockFailed && failure.isCatchable then do
      Eval.emit (.discarded failure.message)
      Eval.ofResult outcome
    else Eval.fail failure

section Settle

variable {blockFailed : Bool} {outcome : Except Failure Completion} {failure : Failure}

theorem finalized_some (ev : Evaluator) (body : List Stmt) :
    finalized ev blockFailed outcome (some body) =
      (ev.block body).attempt >>= settle blockFailed outcome :=
  rfl

theorem settle_normal (v : Value) :
    settle blockFailed outcome (.ok (.normal v)) = Eval.ofResult outcome :=
  rfl

theorem settle_abrupt {c : Completion} (habrupt : c.isAbrupt = true) :
    settle blockFailed outcome (.ok c) = pure c :=
  if_pos habrupt

theorem settle_interrupted :
    settle blockFailed outcome (.error .interrupted) = Eval.fail .interrupted := by
  cases blockFailed <;> rfl

theorem settle_failed : settle false outcome (.error failure) = Eval.fail failure :=
  rfl

/-- A failure of the block comes before one of the finalizer, which is only logged. -/
theorem settle_discarded (hraised : failure ≠ .interrupted) :
    settle true outcome (.error failure) =
      Eval.emit (.discarded failure.message) >>= fun _ => Eval.ofResult outcome := by
  cases failure with
  | raised cause span => rfl
  | interrupted => exact absurd rfl hraised

end Settle

/-- The finalizer, as it is described by `Finishes`. -/
theorem attempt_finalized (result outcome r : Except Failure Completion)
    (finalizer : Option (List Stmt)) :
    (finalized (Evaluator.level ctx fuel) (isFailure result) outcome finalizer).attempt s =
        .ok r s' ↔ Finishes ctx fuel result outcome s finalizer r s' := by
  cases finalizer with
  | none =>
    show (Eval.ofResult outcome).attempt s = .ok r s' ↔ _
    rw [Eval.attempt_ofResult]
    constructor
    · rintro ⟨rfl, rfl⟩
      exact .absent
    · intro h
      cases h
      exact ⟨rfl, rfl⟩
  | some body =>
    rw [finalized_some, Eval.attempt_bind_of_ne_error fun _ _ => Eval.attempt_ne_error]
    constructor
    · rintro ⟨f, s₁, hrun, h⟩
      rcases f with failure | c
      · have hbody : execBlock ctx fuel body s = .error failure s₁ :=
          Eval.attempt_eq_ok_error.1 hrun
        by_cases hraised : failure = .interrupted
        · subst hraised
          rw [settle_interrupted, Eval.attempt_fail] at h
          obtain ⟨rfl, rfl⟩ := h
          exact .interrupted hbody
        · rcases result with first | c
          · rw [isFailure, settle_discarded hraised] at h
            obtain ⟨rfl, rfl⟩ := Eval.attempt_ofResult.1 h
            exact .discarded rfl hraised hbody
          · rw [isFailure, settle_failed, Eval.attempt_fail] at h
            obtain ⟨rfl, rfl⟩ := h
            exact .failed rfl hbody
      · have hbody : execBlock ctx fuel body s = .ok c s₁ := Eval.attempt_eq_ok_ok.1 hrun
        by_cases habrupt : c.isAbrupt = true
        · rw [settle_abrupt habrupt, Eval.attempt_pure] at h
          obtain ⟨rfl, rfl⟩ := h
          exact .abrupt habrupt hbody
        · cases c with
          | normal v =>
            rw [settle_normal, Eval.attempt_ofResult] at h
            obtain ⟨rfl, rfl⟩ := h
            exact .normal hbody
          | broke | continued | returned => exact absurd rfl habrupt
    · intro h
      cases h with
      | normal hbody =>
        exact ⟨_, _, Eval.attempt_eq_ok_ok.2 hbody, Eval.attempt_ofResult.2 ⟨rfl, rfl⟩⟩
      | abrupt habrupt hbody =>
        refine ⟨_, _, Eval.attempt_eq_ok_ok.2 hbody, ?_⟩
        rw [settle_abrupt habrupt, Eval.attempt_pure]
        exact ⟨rfl, rfl⟩
      | interrupted hbody =>
        refine ⟨_, _, Eval.attempt_eq_ok_error.2 hbody, ?_⟩
        rw [settle_interrupted, Eval.attempt_fail]
        exact ⟨rfl, rfl⟩
      | failed hresult hbody =>
        subst hresult
        exact ⟨_, _, Eval.attempt_eq_ok_error.2 hbody, Eval.attempt_fail.2 ⟨rfl, rfl⟩⟩
      | discarded hresult hraised hbody =>
        subst hresult
        refine ⟨_, _, Eval.attempt_eq_ok_error.2 hbody, ?_⟩
        rw [isFailure, settle_discarded hraised]
        exact Eval.attempt_ofResult.2 ⟨rfl, rfl⟩

/-- The three parts of a `try` statement, one after the other. -/
theorem attempt_tryCatch (block : List Stmt) (handler : Option (Option String × List Stmt))
    (finalizer : Option (List Stmt)) (r : Except Failure Completion) :
    (tryCatch (Evaluator.level ctx (fuel + 1)) block handler finalizer).attempt s = .ok r s' ↔
      TryRuns ctx fuel block handler finalizer s r s' := by
  unfold tryCatch TryRuns
  rw [Eval.attempt_bind_of_ne_error fun _ _ => Eval.attempt_ne_error]
  constructor
  · rintro ⟨result, s₁, hblock, hrest⟩
    rw [Eval.attempt_bind_of_ne_error fun _ _ => handled_ne_error _ _ _ _ _ _] at hrest
    obtain ⟨outcome, s₂, hhandler, hfinalizer⟩ := hrest
    exact ⟨result, s₁, outcome, s₂, hblock, (handled_eq_ok _ _ _).1 hhandler,
      (attempt_finalized _ _ _ _).1 hfinalizer⟩
  · rintro ⟨result, s₁, outcome, s₂, hblock, hhandler, hfinalizer⟩
    refine ⟨result, s₁, hblock, ?_⟩
    rw [Eval.attempt_bind_of_ne_error fun _ _ => handled_ne_error _ _ _ _ _ _]
    exact ⟨outcome, s₂, (handled_eq_ok _ _ _).2 hhandler, (attempt_finalized _ _ _ _).2 hfinalizer⟩

end Rule

/-! ## The scope of a handler -/

theorem Failure.thrownValue_of_internal {failure : Failure}
    (h : ∀ v text span, failure ≠ .raised (.thrown v text) span) :
    failure.thrownValue = .string failure.message := by
  cases failure with
  | interrupted => rfl
  | raised cause span =>
    cases cause with
    | thrown v text => exact absurd rfl (h v text span)
    | _ => rfl

namespace State

variable (s : State) (param : Option String) (failure : Failure)

theorem depth_catching : (s.catching param failure).env.depth = s.env.depth + 1 := by
  cases param with
  | none => exact Environment.depth_pushBlock s.env
  | some name =>
    show (s.env.pushBlock.modifyScope _ _).depth = _
    rw [Environment.depth_modifyScope, Environment.depth_pushBlock]

theorem scope_catching_of_lt {i : Nat} (hi : i < s.env.depth) :
    (s.catching param failure).env.scope i = s.env.scope i := by
  have hpush := Environment.scope_pushBlock_of_lt hi
  cases param with
  | none => exact hpush
  | some name =>
    have hne : i ≠ s.env.pushBlock.current := by
      rw [Environment.current_pushBlock]
      omega
    show (s.env.pushBlock.modifyScope _ _).scope i = _
    rw [Environment.scope_modifyScope_ne hne, hpush]

theorem scope_catching_self : (s.catching param failure).env.scope s.env.depth =
    { kind := .block
      parent := some s.env.current
      bindings := param.toList.map fun name =>
        (name, { mode := .blockMutable, value := failure.thrownValue }) } := by
  have hpush := Environment.scope_pushBlock_self s.env
  cases param with
  | none => exact hpush
  | some name =>
    have hlt : s.env.depth < s.env.pushBlock.depth := by
      rw [Environment.depth_pushBlock]
      omega
    show (s.env.pushBlock.modifyScope s.env.pushBlock.current _).scope s.env.depth = _
    rw [Environment.current_pushBlock, Environment.scope_modifyScope_self hlt, hpush]
    rfl

end State

/-- What a `try` statement does, for every block, handler and finalizer and from every state: there
is a result exactly if there is a run of the block, then of the handler, if the block raised an
error that can be caught, and then of the finalizer, with this result and this final state. The
handler starts in the state that the block left, inside of a new scope that holds the thrown value,
or else the wording of the error, and the event that an error was caught is all that is new besides.
A finalizer's error that is dropped is logged as one warning. As any other statement, a `try`
statement does nothing if the evaluation was interrupted before, and gives its position to an error
that has none. -/
theorem try_statement_runs (ctx : Context) (fuel : Nat) (block : List Stmt)
    (handler : Option (Option String × List Stmt)) (finalizer : Option (List Stmt)) :
    (∀ s r s', (Rule.tryCatch (Evaluator.level ctx (fuel + 1)) block handler finalizer).attempt s =
        .ok r s' ↔ Rule.TryRuns ctx fuel block handler finalizer s r s') ∧
    (∀ span s, execStmt ctx (fuel + 2) (.node span (.tryCatch block handler finalizer)) s =
      if s.interrupted then .error .interrupted s
      else Eval.locating span (do
        Eval.emitIf ctx.trace (.statement "try" span)
        Rule.tryCatch (Evaluator.level ctx (fuel + 1)) block handler finalizer) s) ∧
    (∀ (s : State) param failure, (s.catching param failure).env.depth = s.env.depth + 1 ∧
      (∀ i < s.env.depth, (s.catching param failure).env.scope i = s.env.scope i) ∧
      (s.catching param failure).env.scope s.env.depth =
        { kind := .block
          parent := some s.env.current
          bindings := param.toList.map fun name =>
            (name, { mode := .blockMutable, value := failure.thrownValue }) } ∧
      s.catching param failure = { s with
        env := (s.catching param failure).env
        events := s.events.push (.caught failure.message) }) ∧
    (∀ v text span, (Failure.raised (.thrown v text) span).thrownValue = v) ∧
    (∀ failure : Failure, (∀ v text span, failure ≠ .raised (.thrown v text) span) →
      failure.thrownValue = .string failure.message) ∧
    ∀ text, (Event.discarded text).level = .warn := by
  refine ⟨fun s r s' => Rule.attempt_tryCatch block handler finalizer r, fun span s => rfl,
    fun s param failure => ⟨s.depth_catching param failure,
      fun i hi => s.scope_catching_of_lt param failure hi, s.scope_catching_self param failure,
      rfl⟩, fun v text span => rfl, fun failure => Failure.thrownValue_of_internal,
    fun text => rfl⟩

end ReactiveScript
