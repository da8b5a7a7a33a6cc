import ReactiveScript.Proofs.Padding
import ReactiveScript.Proofs.Returns

/-!
# `for` is `while` with an update

A `for` loop does what a block does that starts with the initializer and then repeats the body and
the update as a `while` loop. The `while` loop runs both of them in one more block, which makes no
difference to them (`Eval.inBlock_eq_self`), and it runs them some levels deeper, which makes no
difference as long as there is fuel. One round of a loop is therefore one round of the other one.
-/

namespace ReactiveScript

open Environment

/-! ## The translation -/

/-- Whether a statement may stand as the initializer of a loop. -/
def StmtKind.isInitializer : StmtKind → Bool
  | expression _ | declare .. | function .. => true
  | _ => false

/-- All signals but `continue`. -/
def Signals.exceptContinue : Signals := { all with continues := false }

namespace Stmt

/-- The body of a loop and its update, one after the other in a block. -/
def bodyWithUpdate (body : Stmt) (update : Option Expr) : Stmt :=
  Stmt.of (.block (body :: update.toList.map fun e => Stmt.of (.expression e)))

/-- The `while` loop that a `for` loop is, once it is initialized. A missing test is the literal
`true`. -/
def whileWithUpdate (test update : Option Expr) (body : Stmt) : Stmt :=
  Stmt.of (.whileLoop (test.getD (Expr.of (.literal (.bool true)))) (bodyWithUpdate body update))

/-- The block that a `for` loop is. -/
def forAsWhile (span : Span) (init : Option Stmt) (test update : Option Expr) (body : Stmt) :
    Stmt :=
  .node span (.block (init.toList ++ [whileWithUpdate test update body]))

end Stmt

/-- A completion without the value of a normal one. -/
def Completion.withoutValue : Completion → Completion
  | .normal _ => .done
  | completion => completion

/-- An evaluation without the value of a normal completion. -/
def Eval.valueless (m : Eval Completion) : Eval Completion := do
  let completion ← m
  pure completion.withoutValue

namespace Eval

/-- What a statement does that runs in a block of its own. -/
def ownBlock (span : Span) (m : Eval Completion) : Eval Completion := do
  checkInterrupt
  locating span (inBlock m)

theorem valueless_ownBlock (span : Span) (m : Eval Completion) :
    (ownBlock span m).valueless = ownBlock span m.valueless := by
  funext s
  unfold valueless ownBlock
  rw [bind_apply, checkInterrupt_bind, checkInterrupt_bind]
  by_cases hgo : s.interrupted = true
  · rw [if_pos hgo, if_pos hgo]
  · rw [if_neg hgo, if_neg hgo]
    unfold locating inBlock
    rw [bind_apply]
    cases m { s with env := s.env.pushBlock } <;> rfl

theorem valueless_bind {α : Type} (m : Eval α) (f : α → Eval Completion) :
    (m >>= f).valueless = m >>= fun a => (f a).valueless := by
  funext s
  unfold valueless
  rw [bind_apply, bind_apply, bind_apply]
  cases m s <;> rfl

/-! ## Evaluations that need more fuel -/

/-- From states with a property, the second evaluation comes to what the first one comes to, unless
that runs out of steps. -/
def ExtendsFrom {α : Type} (I : State → Prop) (m m' : Eval α) : Prop :=
  ∀ s, I s → m s = .exhausted ∨ m' s = m s

namespace ExtendsFrom

variable {I : State → Prop} {α β : Type} {m m' m'' : Eval α}

theorem of_extends (h : m.Extends m') : m.ExtendsFrom I m' := fun s _ => h s

theorem trans (h : m.ExtendsFrom I m') (h' : m'.ExtendsFrom I m'') : m.ExtendsFrom I m'' := by
  intro s hs
  rcases h s hs with hexhausted | hsame
  · exact Or.inl hexhausted
  · rcases h' s hs with hexhausted | hsame'
    · exact Or.inl (hsame.symm.trans hexhausted)
    · exact Or.inr (hsame'.trans hsame)

theorem bind {f f' : α → Eval β} (hm : m.ExtendsFrom I m') (hI : ∀ s, I s → (m s).Leaves I)
    (hf : ∀ a, (f a).ExtendsFrom I (f' a)) : (m >>= f).ExtendsFrom I (m' >>= f') := by
  intro s hs
  have hleft := hI s hs
  rw [bind_apply, bind_apply]
  rcases hm s hs with hexhausted | hsame
  · rw [hexhausted]
    exact Or.inl rfl
  · rw [hsame]
    generalize m s = o at hleft
    cases hleft with
    | ok hs₁ => exact hf _ _ hs₁
    | error | exhausted => exact Or.inr rfl

theorem valueless {m m' : Eval Completion} (h : m.ExtendsFrom I m') :
    m.valueless.ExtendsFrom I m'.valueless := by
  intro s hs
  unfold Eval.valueless
  rw [bind_apply, bind_apply]
  rcases h s hs with hexhausted | hsame
  · rw [hexhausted]
    exact Or.inl rfl
  · rw [hsame]
    exact Or.inr rfl

theorem ownBlock (span : Span) {m m' : Eval Completion}
    (h : m.ExtendsFrom (fun s => s.env.Linked) m') :
    (Eval.ownBlock span m).ExtendsFrom (fun s => s.env.Linked) (Eval.ownBlock span m') := by
  intro s hs
  unfold Eval.ownBlock
  rw [checkInterrupt_bind, checkInterrupt_bind]
  by_cases hgo : s.interrupted = true
  · rw [if_pos hgo, if_pos hgo]
    exact Or.inr rfl
  · rw [if_neg hgo, if_neg hgo]
    unfold locating inBlock
    rcases h { s with env := s.env.pushBlock } hs.pushBlock with hexhausted | hsame
    · rw [hexhausted]
      exact Or.inl rfl
    · rw [hsame]
      exact Or.inr rfl

/-- A loop with more rounds, by induction on the rounds of the other one. -/
theorem repeating {round round' : Eval Round} (hround : round.ExtendsFrom I round')
    (hI : ∀ s, I s → (round s).Leaves I) {n k : Nat} (hle : n ≤ k) :
    (Eval.repeating round n).ExtendsFrom I (Eval.repeating round' k) := by
  induction n generalizing k with
  | zero => exact fun _ _ => Or.inl rfl
  | succ n ih =>
    obtain ⟨k, rfl⟩ : ∃ l, k = l + 1 := ⟨k - 1, by omega⟩
    rw [repeating_succ, repeating_succ]
    refine hround.bind hI fun next => ?_
    cases next with
    | again => exact ih (Nat.le_of_succ_le_succ hle)
    | finish completion => exact of_extends (.refl _)

end ExtendsFrom

/-- What evaluations find and leave: environments whose scopes are linked. -/
theorem Keeps.linked {r : Reach} {α : Type} {m : Eval α} (hm : m.Keeps Linked (Footprint r))
    (s : State) (hs : s.env.Linked) : (m s).Leaves fun s' => s'.env.Linked :=
  (hm s hs).imp fun _ h => h.toSameShape.linked hs

end Eval

/-! ## Statements that the translation adds -/

namespace Evaluator

variable {ctx : Context} {n : Nat} {s : State}

/-- A statement with tracing off: a test for interruption, and then what stands there. -/
theorem stmt_eq_checked (htrace : ctx.trace = false) (n : Nat) (span : Span) (kind : StmtKind) :
    (level ctx (n + 1)).stmt (.node span kind) = Eval.checkInterrupt >>= fun _ =>
      Eval.locating span (Rule.stmtKind ctx (level ctx n) span kind) := by
  funext s
  show Rule.stmt ctx (level ctx n) _ s = _
  rw [Rule.stmt_eq_executing, State.executing_of_trace htrace, Eval.checkInterrupt_bind]
  rfl

/-- A statement without a position leaves failures without one. -/
theorem stmt_of_eq (htrace : ctx.trace = false) (n : Nat) (kind : StmtKind) :
    (level ctx (n + 1)).stmt (Stmt.of kind) = Eval.checkInterrupt >>= fun _ =>
      Rule.stmtKind ctx (level ctx n) .unknown kind := by
  rw [Stmt.of, stmt_eq_checked htrace]
  funext s
  rw [Eval.checkInterrupt_bind, Eval.checkInterrupt_bind]
  unfold Eval.locating
  cases Rule.stmtKind ctx (level ctx n) .unknown kind s <;> rfl

/-- An interruption is noticed by the expression, if not by its statement. -/
theorem stmt_expression_eq (htrace : ctx.trace = false) (n : Nat) (e : Expr) :
    (level ctx (n + 2)).stmt (Stmt.of (.expression e)) = Rule.expression (level ctx (n + 1)) e := by
  rw [stmt_of_eq htrace]
  funext s
  rw [Eval.checkInterrupt_bind]
  by_cases hgo : s.interrupted = true
  · rw [if_pos hgo, Rule.expression, Eval.bind_apply, expr_interrupted hgo]
  · rw [if_neg hgo]
    rfl

/-- An interruption is noticed by the first round, if not by the loop. -/
theorem stmt_whileLoop_eq (htrace : ctx.trace = false) (n : Nat) (test : Expr) (body : Stmt) :
    (level ctx (n + 2)).stmt (Stmt.of (.whileLoop test body)) =
      Rule.whileLoop (level ctx (n + 1)) test body := by
  rw [stmt_of_eq htrace]
  funext s
  rw [Eval.checkInterrupt_bind]
  by_cases hgo : s.interrupted = true
  · rw [if_pos hgo, Rule.whileLoop, rounds_level, Eval.repeating_succ, Eval.bind_apply,
      Eval.checkInterrupt_bind, if_pos hgo]
  · rw [if_neg hgo]
    rfl

/-! ### What an empty block makes no difference to -/

theorem weakens_level (ctx : Context) (n : Nat) :
    (level ctx n).Related (fun r _ m _ => m.Weakens r) (level ctx n) :=
  (Eval.Weakens.congruence ctx.trace).level n

theorem transports_block (ctx : Context) (n p : Nat) (body : List Stmt) :
    ((level ctx n).block body).Transports (Padded p) := by
  cases n with
  | zero => exact Eval.Transports.stop
  | succ n =>
    have hbody := (Eval.Weakens.congruence ctx.trace).stmts (weakens_level ctx n) body
    exact hbody.ofStatement.padded_inBlock p

theorem transports_stmt (htrace : ctx.trace = false) {p : Nat} {span : Span} {kind : StmtKind}
    (h : ∀ n, (Rule.stmtKind ctx (level ctx n) span kind).Transports (Padded p)) (n : Nat) :
    ((level ctx n).stmt (.node span kind)).Transports (Padded p) := by
  cases n with
  | zero => exact Eval.Transports.stop
  | succ n =>
    rw [stmt_eq_checked htrace]
    exact Eval.Transports.checkInterrupt.bind fun _ => (h n).mapError _

theorem transports_stmtsFrom {ev : Evaluator} {V : Environment → Environment → Prop}
    {body : List Stmt} (h : ∀ st ∈ body, st.isWhen = false ∧ (ev.stmt st).Transports V)
    (last : Value) : (ev.stmtsFrom last body).Transports V := by
  induction body generalizing last with
  | nil => exact Eval.Transports.pure _
  | cons st body ih =>
    rw [List.forall_mem_cons] at h
    rw [stmtsFrom_cons, step_eq _ h.1.1]
    refine (h.1.2.bind fun c => Eval.Transports.pure _).bind fun next => ?_
    cases next with
    | next last => exact ih h.2 last
    | leave c => exact Eval.Transports.pure _

/-- Neither the body of a loop nor its update declares anything in the scope around it. -/
theorem transports_bodyWithUpdate (htrace : ctx.trace = false) (n p : Nat) (span : Span)
    (body : List Stmt) (update : Option Expr) :
    ((level ctx n).stmts (.node span (.block body) ::
      update.toList.map fun e => Stmt.of (.expression e))).Transports (Padded p) := by
  refine transports_stmtsFrom (fun st hst => ?_) .null
  rw [List.mem_cons, List.mem_map] at hst
  rcases hst with rfl | ⟨e, -, rfl⟩
  · exact ⟨rfl, transports_stmt htrace (fun k => transports_block ctx k p body) n⟩
  · refine ⟨rfl, transports_stmt htrace (fun k => ?_) n⟩
    exact (((weakens_level ctx k).expr e).padded trivial).bind fun v => Eval.Transports.pure _

/-! ## Rounds -/

/-- What follows the test of a round, if the test holds. A missing test holds. -/
def ifTest (ev : Evaluator) (test : Option Expr) (continuing : Eval Eval.Round) : Eval Eval.Round :=
  match test with
  | none => continuing
  | some test => Rule.whileTrue ev test continuing

/-- One round of a `for` loop whose test, body and update are evaluated on levels of their own. -/
def roundAt (ctx : Context) (i j k : Nat) (test update : Option Expr) (body : Stmt) :
    Eval Eval.Round := do
  Eval.checkInterrupt
  ifTest (level ctx i) test (Rule.bodyThen (level ctx j) body (Rule.forUpdate (level ctx k) update))

variable {test update : Option Expr} {body : Stmt} {span : Span} {stmts : List Stmt}

theorem forRound_eq (ctx : Context) (n : Nat) (test update : Option Expr) (body : Stmt) :
    Rule.forRound (level ctx n) test update body = roundAt ctx n n n test update body := by
  cases test <;> rfl

/-- Rounds are related if the levels of their parts are. -/
theorem roundAt_related {R : Reach → {α : Type} → Eval α → Eval α → Prop}
    (hR : Congruence ctx.trace ctx.trace R) {i j k i' j' k' : Nat}
    (hi : (level ctx i).Related R (level ctx i')) (hj : (level ctx j).Related R (level ctx j'))
    (hk : (level ctx k).Related R (level ctx k')) (test update : Option Expr) (body : Stmt) :
    R .statement (roundAt ctx i j k test update body) (roundAt ctx i' j' k' test update body) := by
  have hrest := hR.bodyThen hj body (hR.forUpdate hk update)
  refine hR.bind hR.checkInterrupt fun _ => ?_
  cases test with
  | none => exact hrest
  | some test => exact hR.whileTrue hi test hrest

theorem roundAt_extends (ctx : Context) {i j k i' j' k' : Nat} (hi : i ≤ i') (hj : j ≤ j')
    (hk : k ≤ k') (test update : Option Expr) (body : Stmt) :
    (roundAt ctx i j k test update body).Extends (roundAt ctx i' j' k' test update body) :=
  roundAt_related (Eval.Extends.congruence ctx.trace) (related_level_of_le ctx hi)
    (related_level_of_le ctx hj) (related_level_of_le ctx hk) test update body

theorem keeps_roundAt (ctx : Context) (i j k : Nat) (test update : Option Expr) (body : Stmt) :
    (roundAt ctx i j k test update body).Keeps Linked (Footprint .statement) :=
  have hR := Footprint.congruence ctx.trace ctx.trace
  roundAt_related hR (hR.level i) (hR.level j) (hR.level k) test update body

/-- A test that is the literal `true` holds. -/
theorem checked_ifTest (ctx : Context) (n : Nat) (test : Option Expr)
    (continuing : Eval Eval.Round) :
    (Eval.checkInterrupt >>= fun _ => Rule.whileTrue (level ctx (n + 1))
      (test.getD (Expr.of (.literal (.bool true)))) continuing) =
    Eval.checkInterrupt >>= fun _ => ifTest (level ctx (n + 1)) test continuing := by
  cases test with
  | some test => rfl
  | none =>
    funext s
    rw [Eval.checkInterrupt_bind, Eval.checkInterrupt_bind]
    by_cases hgo : s.interrupted = true
    · rw [if_pos hgo, if_pos hgo]
    · rw [if_neg hgo, if_neg hgo]
      have htrue : (level ctx (n + 1)).expr (Expr.of (.literal (.bool true))) s =
          .ok (.bool true) s := if_neg hgo
      show Rule.whileTrue _ (Expr.of (.literal (.bool true))) continuing s = continuing s
      rw [Rule.whileTrue, Eval.bind_apply, htrue]
      rfl

/-- The update as the rest of a list. -/
theorem stmtsFrom_update (htrace : ctx.trace = false) (n : Nat) (last : Value)
    (update : Option Expr) :
    ((level ctx (n + 2)).stmtsFrom last (update.toList.map fun e => Stmt.of (.expression e)) >>=
      fun c => pure (Rule.afterBody c)) = Rule.forUpdate (level ctx (n + 1)) update := by
  cases update with
  | none => rfl
  | some e =>
    funext s
    rw [Option.toList_some, List.map_singleton, stmtsFrom_cons, step_eq _ rfl,
      stmt_expression_eq htrace, Rule.expression, Rule.forUpdate]
    simp only [Eval.bind_apply]
    cases (level ctx (n + 1)).expr e s <;> rfl

/-- The body and the update as one list. The body must send no `continue`, which would skip the
update here. -/
theorem stmts_bodyWithUpdate (htrace : ctx.trace = false) (hwhen : body.isWhen = false)
    (hbody : body.isScoped .all .exceptContinue = true) (update : Option Expr) (n : Nat) :
    ((level ctx (n + 2)).stmts (body :: update.toList.map fun e => Stmt.of (.expression e)) >>=
      fun c => pure (Rule.afterBody c)) =
    Rule.bodyThen (level ctx (n + 2)) body (Rule.forUpdate (level ctx (n + 1)) update) := by
  funext s
  rw [stmts, stmtsFrom_cons, step_eq _ hwhen, Rule.bodyThen, Rule.loopBody]
  simp only [Eval.bind_apply]
  cases hrun : (level ctx (n + 2)).stmt body s with
  | ok c s₁ =>
    cases c with
    | normal v => exact congrFun (stmtsFrom_update htrace n _ update) s₁
    | continued => cases allows_of_isScoped hbody hrun
    | broke | returned => rfl
  | error | exhausted => rfl

/-- The body and the update in a block of their own, some levels deeper. -/
theorem loopBody_bodyWithUpdate (htrace : ctx.trace = false)
    (hbody : Stmt.areScoped .all .exceptContinue stmts = true) (update : Option Expr) (n : Nat)
    (hs : s.env.Linked) :
    Rule.loopBody (level ctx (n + 4)) (Stmt.bodyWithUpdate (.node span (.block stmts)) update) s =
      Rule.bodyThen (level ctx (n + 2)) (.node span (.block stmts))
        (Rule.forUpdate (level ctx (n + 1)) update) s := by
  rw [Rule.loopBody, Stmt.bodyWithUpdate, stmt_of_eq htrace, Eval.bind_apply,
    Eval.checkInterrupt_bind]
  by_cases hgo : s.interrupted = true
  · rw [if_pos hgo, Rule.bodyThen, Rule.loopBody, Eval.bind_apply, Eval.bind_apply,
      stmt_interrupted hgo]
  · -- The level that enters the block is spent; what runs in it may as well run outside.
    rw [if_neg hgo]
    have hlist := (Footprint.congruence ctx.trace ctx.trace).stmts
      ((Footprint.congruence ctx.trace ctx.trace).level (n + 2))
      (.node span (.block stmts) :: update.toList.map fun e => Stmt.of (.expression e))
    have hblock := Eval.inBlock_eq_self hlist
      (transports_bodyWithUpdate htrace (n + 2) 0 span stmts update) hs
    have hscoped : (Stmt.node span (.block stmts)).isScoped .all .exceptContinue = true := hbody
    have hrest := congrFun (stmts_bodyWithUpdate htrace rfl hscoped update n) s
    rw [← hrest, Eval.bind_apply, ← hblock]
    rfl

/-- From linked scopes, one round of the `while` loop is one round of the `for` loop. -/
theorem whileRound_eq (htrace : ctx.trace = false)
    (hbody : Stmt.areScoped .all .exceptContinue stmts = true) (test update : Option Expr) (n : Nat)
    (hs : s.env.Linked) :
    (Eval.checkInterrupt >>= fun _ => Rule.whileTrue (level ctx (n + 4))
      (test.getD (Expr.of (.literal (.bool true))))
      (Rule.loopBody (level ctx (n + 4))
        (Stmt.bodyWithUpdate (.node span (.block stmts)) update))) s =
      roundAt ctx (n + 4) (n + 2) (n + 1) test update (.node span (.block stmts)) s := by
  rw [checked_ifTest, roundAt, Eval.checkInterrupt_bind, Eval.checkInterrupt_bind]
  by_cases hgo : s.interrupted = true
  · rw [if_pos hgo, if_pos hgo]
  · rw [if_neg hgo, if_neg hgo]
    cases test with
    | none => exact loopBody_bodyWithUpdate htrace hbody update n hs
    | some test =>
      have htest := Eval.Keeps.linked
        (((Footprint.congruence ctx.trace ctx.trace).level (n + 4)).expr test) s hs
      show Rule.whileTrue _ test _ s = Rule.whileTrue _ test _ s
      rw [Rule.whileTrue, Rule.whileTrue, Eval.bind_apply, Eval.bind_apply]
      generalize (level ctx (n + 4)).expr test s = o at htest
      cases htest with
      | @ok v s₁ hs₁ =>
        dsimp only
        by_cases hv : v.isTruthy = true
        · rw [if_pos hv, if_pos hv]
          exact loopBody_bodyWithUpdate htrace hbody update n hs₁
        · rw [if_neg hv, if_neg hv]
      | error | exhausted => rfl

/-! ## Loops -/

/-- The `while` loop goes on as the `for` loop does. -/
theorem forLoop_extends (htrace : ctx.trace = false)
    (hbody : Stmt.areScoped .all .exceptContinue stmts = true) (test update : Option Expr)
    (span : Span) (n : Nat) :
    (Eval.repeating
      (Rule.forRound (level ctx n) test update (.node span (.block stmts))) n).ExtendsFrom
    (fun s => s.env.Linked)
    ((level ctx (n + 5)).stmt (Stmt.whileWithUpdate test update (.node span (.block stmts)))) := by
  rw [Stmt.whileWithUpdate, stmt_whileLoop_eq htrace, Rule.whileLoop, rounds_level, forRound_eq]
  have hround := roundAt_extends ctx (show n ≤ n + 4 by omega) (show n ≤ n + 2 by omega)
    (show n ≤ n + 1 by omega) test update (.node span (.block stmts))
  refine Eval.ExtendsFrom.repeating (fun s hs => ?_)
    (keeps_roundAt ctx n n n test update _).linked (by omega)
  rw [whileRound_eq htrace hbody test update n hs]
  exact hround s

/-- The `for` loop goes on as the `while` loop does. -/
theorem whileLoop_extends (htrace : ctx.trace = false)
    (hbody : Stmt.areScoped .all .exceptContinue stmts = true) (test update : Option Expr)
    (span : Span) (n : Nat) :
    ((level ctx (n + 5)).stmt
      (Stmt.whileWithUpdate test update (.node span (.block stmts)))).ExtendsFrom
    (fun s => s.env.Linked)
    (Eval.repeating
      (Rule.forRound (level ctx (n + 6)) test update (.node span (.block stmts))) (n + 6)) := by
  rw [Stmt.whileWithUpdate, stmt_whileLoop_eq htrace, Rule.whileLoop, rounds_level, forRound_eq]
  have hround := roundAt_extends ctx (show n + 4 ≤ n + 6 by omega) (show n + 2 ≤ n + 6 by omega)
    (show n + 1 ≤ n + 6 by omega) test update (.node span (.block stmts))
  refine Eval.ExtendsFrom.repeating (fun s hs => ?_) (fun s hs => ?_) (by omega)
  · rw [whileRound_eq htrace hbody test update n hs]
    exact hround s
  · rw [whileRound_eq htrace hbody test update n hs]
    exact (keeps_roundAt ctx _ _ _ test update _).linked s hs

/-! ## The statements -/

/-- What follows an initializer. -/
def afterInit (ev : Evaluator) (init : Option Stmt) (rest : Eval Completion) : Eval Completion :=
  match init with
  | none => rest
  | some init => ev.stmt init >>= fun _ => rest

theorem afterInit_extends {n k : Nat} (hle : n ≤ k) (init : Option Stmt)
    {rest rest' : Eval Completion} (h : rest.ExtendsFrom (fun s => s.env.Linked) rest') :
    (afterInit (level ctx n) init rest).ExtendsFrom (fun s => s.env.Linked)
      (afterInit (level ctx k) init rest') := by
  cases init with
  | none => exact h
  | some init =>
    have hinit := (related_level_of_le ctx hle).stmt init
    have hkeeps := ((Footprint.congruence ctx.trace ctx.trace).level n).stmt init
    exact (Eval.ExtendsFrom.of_extends hinit).bind hkeeps.linked fun _ => h

/-- An initializer completes normally, if it does not fail. -/
theorem stmt_initializer {st : Stmt} (hst : st.kind.isInitializer = true) {s s' : State}
    {c : Completion} (h : (level ctx n).stmt st s = .ok c s') : ∃ v, c = .normal v := by
  have hscoped : st.isScoped .all .none = true := by
    have hall := isScoped_all.2.1 st
    obtain ⟨span, kind⟩ := st
    cases kind <;> first | exact hall | cases hst
  have hallowed := allows_of_isScoped hscoped h
  cases c with
  | normal v => exact ⟨v, rfl⟩
  | broke | continued | returned => cases hallowed

theorem stmtsFrom_singleton (ev : Evaluator) {st : Stmt} (hst : st.isWhen = false) (last : Value) :
    (ev.stmtsFrom last [st]).valueless = (ev.stmt st).valueless := by
  funext s
  rw [stmtsFrom_cons, step_eq _ hst]
  unfold Eval.valueless
  simp only [Eval.bind_apply]
  cases ev.stmt st s with
  | ok c s₁ => cases c <;> rfl
  | error | exhausted => rfl

/-- An initializer and a statement, as a list. -/
theorem stmts_initialized {init : Option Stmt}
    (hinit : ∀ st ∈ init, st.kind.isInitializer = true) {st : Stmt} (hst : st.isWhen = false)
    (n : Nat) :
    ((level ctx n).stmts (init.toList ++ [st])).valueless =
      (afterInit (level ctx n) init ((level ctx n).stmt st)).valueless := by
  cases init with
  | none => exact stmtsFrom_singleton _ hst .null
  | some init =>
    have hkind := hinit init rfl
    have hwhen : init.isWhen = false := by
      obtain ⟨span, kind⟩ := init
      cases kind <;> first | rfl | cases hkind
    funext s
    rw [Option.toList_some, List.singleton_append, stmts, stmtsFrom_cons, step_eq _ hwhen,
      afterInit, Eval.valueless_bind, Eval.valueless_bind, Eval.bind_apply, Eval.bind_apply,
      Eval.bind_apply]
    cases hrun : (level ctx n).stmt init s with
    | ok c s₁ =>
      obtain ⟨v, rfl⟩ := stmt_initializer hkind hrun
      exact congrFun (stmtsFrom_singleton _ hst _) s₁
    | error | exhausted => rfl

theorem stmt_forLoop_eq (htrace : ctx.trace = false) (n : Nat) (span : Span) (init : Option Stmt)
    (test update : Option Expr) (body : Stmt) :
    (level ctx (n + 1)).stmt (.node span (.forLoop init test update body)) =
      Eval.ownBlock span (afterInit (level ctx n) init
        (Eval.repeating (Rule.forRound (level ctx n) test update body) n)) := by
  rw [stmt_eq_checked htrace]
  show (Eval.checkInterrupt >>= fun _ =>
    Eval.locating span (Rule.forLoop (level ctx n) init test update body)) = _
  unfold Rule.forLoop
  rw [rounds_level]
  cases init <;> rfl

theorem stmt_block_eq (htrace : ctx.trace = false) (n : Nat) (span : Span) (body : List Stmt) :
    (level ctx (n + 2)).stmt (.node span (.block body)) =
      Eval.ownBlock span ((level ctx n).stmts body) := by
  rw [stmt_eq_checked htrace]
  rfl

section Translation

variable {init : Option Stmt} {bodySpan : Span}

theorem stmt_forAsWhile_eq (htrace : ctx.trace = false)
    (hinit : ∀ st ∈ init, st.kind.isInitializer = true) (n : Nat) (span : Span)
    (test update : Option Expr) (body : Stmt) :
    ((level ctx (n + 2)).stmt (Stmt.forAsWhile span init test update body)).valueless =
      Eval.ownBlock span (afterInit (level ctx n) init
        ((level ctx n).stmt (Stmt.whileWithUpdate test update body))).valueless := by
  rw [Stmt.forAsWhile, stmt_block_eq htrace, Eval.valueless_ownBlock, stmts_initialized hinit rfl]

theorem for_extends (htrace : ctx.trace = false)
    (hinit : ∀ st ∈ init, st.kind.isInitializer = true)
    (hbody : Stmt.areScoped .all .exceptContinue stmts = true) (n : Nat) :
    ((level ctx (n + 1)).stmt (.node span
      (.forLoop init test update (.node bodySpan (.block stmts))))).valueless.ExtendsFrom
    (fun s => s.env.Linked)
    ((level ctx (n + 7)).stmt
      (Stmt.forAsWhile span init test update (.node bodySpan (.block stmts)))).valueless := by
  rw [stmt_forLoop_eq htrace, Eval.valueless_ownBlock, stmt_forAsWhile_eq htrace hinit]
  have hloop := forLoop_extends htrace hbody test update bodySpan n
  exact ((afterInit_extends (by omega) init hloop).valueless).ownBlock span

theorem forAsWhile_extends (htrace : ctx.trace = false)
    (hinit : ∀ st ∈ init, st.kind.isInitializer = true)
    (hbody : Stmt.areScoped .all .exceptContinue stmts = true) (n : Nat) :
    ((level ctx (n + 7)).stmt
      (Stmt.forAsWhile span init test update (.node bodySpan (.block stmts)))).valueless.ExtendsFrom
    (fun s => s.env.Linked)
    ((level ctx (n + 7)).stmt
      (.node span (.forLoop init test update (.node bodySpan (.block stmts))))).valueless := by
  rw [stmt_forLoop_eq htrace, Eval.valueless_ownBlock, stmt_forAsWhile_eq htrace hinit]
  have hloop := whileLoop_extends htrace hbody test update bodySpan n
  exact ((afterInit_extends (by omega) init hloop).valueless).ownBlock span

end Translation

end Evaluator

open Interpreter (execStmt)

/-- A `for` loop is a `while` loop with an update. Executing `for (init; test; update) body` comes
to what executing the block `{ init; while (test) { body update; } }` comes to, if the initializer
is a declaration or an expression statement or is missing, the body is a block that sends no
`continue` to the loop, and programs are not traced: to the same failure, the same returned value,
or a normal completion on both sides, in the same state. If one of them never ends, neither does the
other. -/
theorem for_is_while_with_update (ctx : Context) (span bodySpan : Span) (init : Option Stmt)
    (test update : Option Expr) (body : List Stmt) (s : State) (htrace : ctx.trace = false)
    (hinit : ∀ st ∈ init, st.kind.isInitializer = true)
    (hbody : Stmt.areScoped .all .exceptContinue body = true) (hlinked : s.env.Linked)
    (r : Except Failure Completion) (s' : State) :
    Eval.ComesTo (fun fuel => (execStmt ctx fuel (.node span
      (.forLoop init test update (.node bodySpan (.block body))))).valueless) s r s' ↔
    Eval.ComesTo (fun fuel => (execStmt ctx fuel (Stmt.forAsWhile span init test update
      (.node bodySpan (.block body)))).valueless) s r s' := by
  constructor
  · intro h
    refine h.of_extends fun fuel => ⟨fuel + 6, ?_⟩
    cases fuel with
    | zero => exact Or.inl rfl
    | succ n => exact Evaluator.for_extends htrace hinit hbody n s hlinked
  · intro h
    -- Only a level that is high enough has room for the block and both statements in it.
    refine h.of_extends fun fuel => ⟨fuel + 7, ?_⟩
    have hfuel := (Evaluator.related_level_of_le ctx (Nat.le_add_right fuel 7)).stmt
      (Stmt.forAsWhile span init test update (.node bodySpan (.block body)))
    have hmore := Eval.ExtendsFrom.of_extends (I := fun s => s.env.Linked) hfuel
    exact hmore.valueless.trans (Evaluator.forAsWhile_extends htrace hinit hbody fuel) s hlinked

/-- The initializer `let going = true`. -/
def letGoing : Stmt :=
  Stmt.of (.declare .blockScoped [("going", some (Expr.of (.literal (.bool true))))])

/-- The expression `going = null`. -/
def stopGoing : Expr := Expr.of (.assign none (Expr.of (.ident "going")) (Expr.of (.literal .null)))

/-- A loop with one round. Its body declares a variable in a scope of its own and fails if it finds
that variable there already. -/
theorem for_is_while_with_update_letGoing :
    plainContext.trace = false ∧ (∀ st ∈ some letGoing, st.kind.isInitializer = true) ∧
      Stmt.areScoped .all .exceptContinue [letGoing] = true ∧ ({} : State).env.Linked ∧
      ∃ s', Eval.ComesTo (fun fuel => (execStmt plainContext fuel (.node .unknown
          (.forLoop (some letGoing) (some (Expr.of (.ident "going"))) (some stopGoing)
            (Stmt.of (.block [letGoing]))))).valueless) {} (.ok .done) s' ∧
        Eval.ComesTo (fun fuel => (execStmt plainContext fuel (Stmt.forAsWhile .unknown
          (some letGoing) (some (Expr.of (.ident "going"))) (some stopGoing)
            (Stmt.of (.block [letGoing])))).valueless) {} (.ok .done) s' := by
  have hinit : ∀ st ∈ some letGoing, st.kind.isInitializer = true := by
    rintro st ⟨rfl⟩
    rfl
  have hlinked : ({} : State).env.Linked := by decide +kernel
  have hfor : ∃ s', Eval.ComesTo (fun fuel => (execStmt plainContext fuel (.node .unknown
      (.forLoop (some letGoing) (some (Expr.of (.ident "going"))) (some stopGoing)
        (Stmt.of (.block [letGoing]))))).valueless) {} (.ok .done) s' := ⟨_, 9, rfl⟩
  obtain ⟨s', hfor⟩ := hfor
  refine ⟨rfl, hinit, rfl, hlinked, s', hfor, ?_⟩
  exact (for_is_while_with_update plainContext .unknown .unknown (some letGoing) _ _ [letGoing] {}
    rfl hinit rfl hlinked _ s').1 hfor

end ReactiveScript
