import ReactiveScript.Proofs.Interruption
import ReactiveScript.Proofs.Pieces
import ReactiveScript.Proofs.TryStatements

/-!
# Returns

A `return` leaves all statements around it, up to the call. For this to be said of every construct
at once, `Evaluator.Runs` makes precise what it means that a construct runs a nested statement: its
evaluation depends on what an evaluator does with that statement in that state. A construct whose
nested statement completes with a `return` has nothing left to do but to leave its own scope; it
completes in the same way, whatever kind of construct it is. A `try` statement executes its
finalizer before. The initializer of a `for` loop is the one nested statement that is left out: what
is said of the loop is said of the rounds after it.
-/

namespace ReactiveScript

open Interpreter (execStmt execStmts callValue)

/-! ## Nested statements -/

/-- What an evaluator is asked to execute by a construct. -/
inductive Nested where
  /-- A statement. -/
  | stmt (st : Stmt)
  /-- Statements in a block of their own. -/
  | block (body : List Stmt)

namespace Evaluator

variable {α β : Type}

/-- Executes what a construct asks for. -/
def nested (ev : Evaluator) : Nested → Eval Completion
  | .stmt st => ev.stmt st
  | .block body => ev.block body

/-- Evaluators that differ at most in what they do with one part in one state. -/
structure SameExcept (part : Nested) (s₁ : State) (ev ev' : Evaluator) : Prop where
  expr (e : Expr) : ev'.expr e = ev.expr e
  call (f : Value) (args : List Value) (receiver : Option Value) :
    ev'.call f args receiver = ev.call f args receiver
  rounds : ev'.rounds = ev.rounds
  nested {p : Nested} {s : State} (hne : (p, s) ≠ (part, s₁)) : ev'.nested p s = ev.nested p s

/-- An evaluation runs a part in a state: it depends on what the evaluator does there. -/
def Runs (ev : Evaluator) (F : Evaluator → Eval α) (s : State) (part : Nested) (s₁ : State) :
    Prop :=
  ∃ ev', ev.SameExcept part s₁ ev' ∧ F ev' s ≠ F ev s

open Classical in
/-- An evaluator that gets stuck at one part in one state. -/
noncomputable def without (ev : Evaluator) (part : Nested) (s₁ : State) : Evaluator where
  expr := ev.expr
  stmt st s := if (.stmt st, s) = (part, s₁) then .exhausted else ev.stmt st s
  block body s := if (.block body, s) = (part, s₁) then .exhausted else ev.block body s
  call := ev.call
  rounds := ev.rounds

theorem without_nested (ev : Evaluator) (part : Nested) (s₁ : State) :
    (ev.without part s₁).nested part s₁ = .exhausted := by
  cases part <;> exact if_pos rfl

/-- What gets stuck with a part is run, if the evaluation does not get stuck anyway. -/
theorem runs_of_without {ev : Evaluator} {F : Evaluator → Eval α} {s s₁ : State} {part : Nested}
    (hstuck : F (ev.without part s₁) s = .exhausted) (hgo : F ev s ≠ .exhausted) :
    ev.Runs F s part s₁ := by
  refine ⟨ev.without part s₁, ⟨fun _ => rfl, fun _ _ _ => rfl, rfl, ?_⟩, ?_⟩
  · intro part' s hne
    cases part' <;> exact if_neg hne
  · rw [hstuck]
    exact hgo.symm

/-- A list gets stuck with its first statement. -/
theorem stmts_of_stuck {ev : Evaluator} {st : Stmt} {rest : List Stmt} {s : State}
    (hwhen : st.isWhen = false) (hstuck : ev.stmt st s = .exhausted) :
    ev.stmts (st :: rest) s = .exhausted := by
  show ev.stmtsFrom .null _ s = .exhausted
  rw [stmtsFrom_cons, Eval.bind_apply, step_eq _ hwhen, Eval.bind_apply, hstuck]

/-- A list runs its first statement. -/
theorem runs_stmts {ev : Evaluator} {st : Stmt} {rest : List Stmt} {s : State}
    (hwhen : st.isWhen = false) (hgo : ev.stmts (st :: rest) s ≠ .exhausted) :
    ev.Runs (fun ev => ev.stmts (st :: rest)) s (.stmt st) s :=
  runs_of_without (stmts_of_stuck hwhen (ev.without_nested (.stmt st) s)) hgo

/-- A block runs its statements. -/
theorem runs_block {ctx : Context} {ev : Evaluator} {span : Span} {body : List Stmt} {s : State}
    (htrace : ctx.trace = false)
    (hgo : Rule.stmt ctx ev (.node span (.block body)) s ≠ .exhausted)
    (hs : s.interrupted = false) :
    ev.Runs (fun ev => Rule.stmt ctx ev (.node span (.block body))) s (.block body) s := by
  refine runs_of_without ?_ hgo
  have hstuck : (ev.without (.block body) s).block body s = .exhausted :=
    ev.without_nested (.block body) s
  unfold Rule.stmt
  rw [hs, htrace]
  show ((ev.without (.block body) s).block body s).mapError _ = .exhausted
  rw [hstuck]
  rfl

end Evaluator

/-! ## Two evaluations -/

/-- The second evaluation does what the first one does, unless the first one comes to a value of a
kind in the state `t`. -/
def Eval.SameUnless {α : Type} (t : State) (P : α → Prop) (m m' : Eval α) (s : State) : Prop :=
  m' s = m s ∨ ∃ a, m s = .ok a t ∧ P a

namespace Eval.SameUnless

variable {α β : Type} {t s : State} {P : α → Prop} {Q : β → Prop} {m m' : Eval α}
  {f f' : α → Eval β}

theorem same (h : m' s = m s) : SameUnless t P m m' s := .inl h

/-- What the first evaluation comes to passes through what follows it. -/
theorem bind (hm : SameUnless t P m m' s)
    (hf : ∀ a s₁, m s = .ok a s₁ → SameUnless t Q (f a) (f' a) s₁)
    (hP : ∀ a, m s = .ok a t → P a → ∃ b, f a t = .ok b t ∧ Q b) :
    SameUnless t Q (m >>= f) (m' >>= f') s := by
  unfold SameUnless
  rw [Eval.bind_apply, Eval.bind_apply]
  rcases hm with hsame | ⟨a, ha, hPa⟩
  · rw [hsame]
    cases hms : m s with
    | ok a s₁ => exact hf a s₁ hms
    | error | exhausted => exact Or.inl rfl
  · rw [ha]
    exact Or.inr (hP a ha hPa)

/-- Two evaluations start with the same. -/
theorem bind_of_eq (hm : m' s = m s) (hf : ∀ a s₁, SameUnless t Q (f a) (f' a) s₁) :
    SameUnless t Q (m >>= f) (m' >>= f') s := by
  have hsame : SameUnless t (fun _ => False) m m' s := same hm
  exact hsame.bind (fun a s₁ _ => hf a s₁) fun _ _ hfalse => hfalse.elim

theorem inBlock {m m' : Eval α} (h : SameUnless t P m m' { s with env := s.env.pushBlock }) :
    SameUnless { t with env := t.env.pop } P (Eval.inBlock m) (Eval.inBlock m') s := by
  unfold SameUnless Eval.inBlock
  rcases h with hsame | ⟨a, ha, hPa⟩
  · rw [hsame]
    exact Or.inl rfl
  · rw [ha]
    exact Or.inr ⟨a, rfl, hPa⟩

theorem locating (span : Span) (h : SameUnless t P m m' s) :
    SameUnless t P (Eval.locating span m) (Eval.locating span m') s := by
  unfold SameUnless Eval.locating
  rcases h with hsame | ⟨a, ha, hPa⟩
  · rw [hsame]
    exact Or.inl rfl
  · rw [ha]
    exact Or.inr ⟨a, rfl, hPa⟩

theorem attempt (h : SameUnless t P m m' s) :
    SameUnless t (fun r => ∃ a, r = .ok a ∧ P a) m.attempt m'.attempt s := by
  unfold SameUnless Eval.attempt
  rcases h with hsame | ⟨a, ha, hPa⟩
  · rw [hsame]
    exact Or.inl rfl
  · rw [ha]
    exact Or.inr ⟨.ok a, rfl, a, rfl, hPa⟩

/-- A loop is left by what leaves one of its rounds, by induction on the rounds that are left. -/
theorem repeating {v : Value} {round round' : Eval Eval.Round}
    (h : ∀ s, SameUnless t (· = .finish (.returned v)) round round' s) (fuel : Nat) (s : State) :
    SameUnless t (· = .returned v) (Eval.repeating round fuel) (Eval.repeating round' fuel) s := by
  induction fuel generalizing s with
  | zero => exact same rfl
  | succ fuel ih =>
    rw [Eval.repeating_succ, Eval.repeating_succ]
    refine (h s).bind (fun next s₁ _ => ?_) ?_
    · cases next with
      | again => exact ih s₁
      | finish c => exact same rfl
    · rintro _ - rfl
      exact ⟨_, rfl, rfl⟩

/-- A loop over items, by induction on those that are left. -/
theorem forEach {v : Value} {round round' : Value → Eval Eval.Round}
    (h : ∀ item s, SameUnless t (· = .finish (.returned v)) (round item) (round' item) s)
    (items : List Value) (s : State) :
    SameUnless t (· = .returned v) (Eval.forEach round items) (Eval.forEach round' items) s := by
  induction items generalizing s with
  | nil => exact same rfl
  | cons item items ih =>
    rw [Eval.forEach_cons, Eval.forEach_cons]
    refine (h item s).bind (fun next s₁ _ => ?_) ?_
    · cases next with
      | again => exact ih s₁
      | finish c => exact same rfl
    · rintro _ - rfl
      exact ⟨_, rfl, rfl⟩

end Eval.SameUnless

/-! ## Constructs -/

/-- Whether a statement executes its parts in a scope of its own, which it leaves at the end. -/
def StmtKind.ownsScope : StmtKind → Bool
  | .forLoop .. | .forIn .. | .forOf .. | .switch .. => true
  | _ => false

/-- Whether a statement has a handler or a finalizer. -/
def StmtKind.isTry : StmtKind → Bool
  | .tryCatch .. => true
  | _ => false

/-- A state without its innermost scope. -/
abbrev State.leaveScope (s : State) : State := { s with env := s.env.pop }

/-- The state in which a statement executes its parts, after it was logged. -/
def State.executing (ctx : Context) (st : Stmt) (s : State) : State :=
  { s with events :=
      if ctx.trace then s.events.push (.statement st.kind.name st.span) else s.events }

theorem State.executing_of_trace {ctx : Context} (htrace : ctx.trace = false) (st : Stmt)
    (s : State) : s.executing ctx st = s := by
  unfold State.executing
  rw [htrace]
  rfl

namespace Rule

section Construct

variable {ctx : Context} {ev ev' : Evaluator} {part : Nested} {s s₁ s₂ : State} {v : Value}
  (h : ev.SameExcept part s₁ ev') (hreturns : ev.nested part s₁ = .ok (.returned v) s₂)

include h hreturns

theorem nested_sameUnless (part' : Nested) (s : State) :
    Eval.SameUnless s₂ (· = .returned v) (ev.nested part') (ev'.nested part') s := by
  by_cases hpart : (part', s) = (part, s₁)
  · cases hpart
    exact Or.inr ⟨_, hreturns, rfl⟩
  · exact Or.inl (h.nested hpart)

theorem stmt_sameUnless (st : Stmt) (s : State) :
    Eval.SameUnless s₂ (· = .returned v) (ev.stmt st) (ev'.stmt st) s :=
  nested_sameUnless h hreturns (.stmt st) s

theorem block_sameUnless (body : List Stmt) (s : State) :
    Eval.SameUnless s₂ (· = .returned v) (ev.block body) (ev'.block body) s :=
  nested_sameUnless h hreturns (.block body) s

/-! ### Lists of statements -/

theorem step_sameUnless (last : Value) (st : Stmt) (s : State) :
    Eval.SameUnless s₂ (· = .leave (.returned v)) (ev.step last st) (ev'.step last st) s := by
  unfold Evaluator.step
  split
  · rename_i span test body
    rw [h.expr]
    refine .bind_of_eq rfl fun _ s₃ => .bind_of_eq rfl fun guard s₄ => ?_
    split
    · refine (block_sameUnless h hreturns body s₄).bind (fun c s₅ _ => .same rfl) ?_
      rintro _ - rfl
      exact ⟨_, rfl, rfl⟩
    · exact .same rfl
  · rename_i span kind _
    refine (stmt_sameUnless h hreturns _ s).bind (fun c s₃ _ => .same rfl) ?_
    rintro _ - rfl
    exact ⟨_, rfl, rfl⟩

theorem stmtsFrom_sameUnless (last : Value) (body : List Stmt) (s : State) :
    Eval.SameUnless s₂ (· = .returned v) (ev.stmtsFrom last body) (ev'.stmtsFrom last body) s := by
  induction body generalizing last s with
  | nil => exact .same rfl
  | cons st body ih =>
    rw [Evaluator.stmtsFrom_cons, Evaluator.stmtsFrom_cons]
    refine (step_sameUnless h hreturns last st s).bind (fun next s₃ _ => ?_) ?_
    · cases next with
      | next last => exact ih last s₃
      | leave c => exact .same rfl
    · rintro _ - rfl
      exact ⟨_, rfl, rfl⟩

theorem stmts_sameUnless (body : List Stmt) (s : State) :
    Eval.SameUnless s₂ (· = .returned v) (ev.stmts body) (ev'.stmts body) s :=
  stmtsFrom_sameUnless h hreturns .null body s

/-! ### Loops -/

omit hreturns in
theorem whileTrue_sameUnless (test : Expr) {continuing continuing' : Eval Eval.Round}
    (hc : ∀ s, Eval.SameUnless s₂ (· = .finish (.returned v)) continuing continuing' s)
    (s : State) :
    Eval.SameUnless s₂ (· = .finish (.returned v)) (whileTrue ev test continuing)
      (whileTrue ev' test continuing') s := by
  unfold whileTrue
  rw [h.expr]
  refine .bind_of_eq rfl fun w s₃ => ?_
  split
  · exact hc s₃
  · exact .same rfl

theorem loopBody_sameUnless (body : Stmt) (s : State) :
    Eval.SameUnless s₂ (· = .finish (.returned v)) (loopBody ev body) (loopBody ev' body) s := by
  refine (stmt_sameUnless h hreturns body s).bind (fun c s₃ _ => .same rfl) ?_
  rintro _ - rfl
  exact ⟨_, rfl, rfl⟩

theorem bodyThen_sameUnless (body : Stmt) {continuing continuing' : Eval Eval.Round}
    (hc : ∀ s, Eval.SameUnless s₂ (· = .finish (.returned v)) continuing continuing' s)
    (s : State) :
    Eval.SameUnless s₂ (· = .finish (.returned v)) (bodyThen ev body continuing)
      (bodyThen ev' body continuing') s := by
  refine (loopBody_sameUnless h hreturns body s).bind (fun round s₃ _ => ?_) ?_
  · cases round with
    | again => exact hc s₃
    | finish c => exact .same rfl
  · rintro _ - rfl
    exact ⟨_, rfl, rfl⟩

omit hreturns in
theorem forUpdate_eq (update : Option Expr) : forUpdate ev' update = forUpdate ev update := by
  cases update with
  | none => rfl
  | some e => rw [forUpdate, forUpdate, h.expr]

theorem forRound_sameUnless (test update : Option Expr) (body : Stmt) (s : State) :
    Eval.SameUnless s₂ (· = .finish (.returned v)) (forRound ev test update body)
      (forRound ev' test update body) s := by
  have hbody : ∀ s, Eval.SameUnless s₂ (· = .finish (.returned v))
      (bodyThen ev body (forUpdate ev update)) (bodyThen ev' body (forUpdate ev' update)) s := by
    rw [forUpdate_eq h]
    exact bodyThen_sameUnless h hreturns body fun _ => .same rfl
  refine .bind_of_eq rfl fun _ s₃ => ?_
  cases test with
  | none => exact hbody s₃
  | some test => exact whileTrue_sameUnless h test hbody s₃

theorem whileLoop_sameUnless (test : Expr) (body : Stmt) (s : State) :
    Eval.SameUnless s₂ (· = .returned v) (whileLoop ev test body) (whileLoop ev' test body) s := by
  unfold whileLoop
  rw [h.rounds]
  refine .repeating (fun s₃ => .bind_of_eq rfl fun _ s₄ => ?_) _ s
  exact whileTrue_sameUnless h test (loopBody_sameUnless h hreturns body) s₄

theorem doWhile_sameUnless (body : Stmt) (test : Expr) (s : State) :
    Eval.SameUnless s₂ (· = .returned v) (doWhile ev body test) (doWhile ev' body test) s := by
  unfold doWhile
  rw [h.rounds]
  refine .repeating (fun s₃ => .bind_of_eq rfl fun _ s₄ => ?_) _ s
  exact bodyThen_sameUnless h hreturns body
    (whileTrue_sameUnless h test fun _ => .same rfl) s₄

theorem forRounds_sameUnless (test update : Option Expr) (body : Stmt) (s : State) :
    Eval.SameUnless s₂ (· = .returned v)
      (Eval.repeating (forRound ev test update body) ev.rounds)
      (Eval.repeating (forRound ev' test update body) ev'.rounds) s := by
  rw [h.rounds]
  exact .repeating (forRound_sameUnless h hreturns test update body) _ s

/-- The initializer is not looked at: it is taken for granted that the part is another one. -/
theorem forLoop_sameUnless (init : Option Stmt) (test update : Option Expr) (body : Stmt)
    (s : State)
    (hinit : ∀ st, init = some st →
      (part, s₁) ≠ (.stmt st, { s with env := s.env.pushBlock })) :
    Eval.SameUnless s₂.leaveScope (· = .returned v) (forLoop ev init test update body)
      (forLoop ev' init test update body) s := by
  have hloop := forRounds_sameUnless h hreturns test update body
  refine .inBlock ?_
  cases init with
  | none => exact hloop _
  | some st => exact .bind_of_eq (h.nested (p := .stmt st) (hinit st rfl).symm) fun _ s₃ => hloop s₃

theorem iterate_sameUnless (binding : LoopBinding) (items : List Value) (body : Stmt) (s : State) :
    Eval.SameUnless s₂.leaveScope (· = .returned v) (iterate ev binding items body)
      (iterate ev' binding items body) s := by
  have hloop : ∀ s, Eval.SameUnless s₂ (· = .returned v)
      (Eval.forEach (itemRound ev binding body) items)
      (Eval.forEach (itemRound ev' binding body) items) s := by
    refine .forEach (fun item s₃ => ?_) items
    refine .bind_of_eq rfl fun _ s₄ => .bind_of_eq rfl fun _ s₅ => ?_
    exact loopBody_sameUnless h hreturns body s₅
  refine .inBlock ?_
  split
  · exact .bind_of_eq rfl fun _ s₃ => hloop s₃
  · exact hloop _

theorem forIn_sameUnless (binding : LoopBinding) (object : Expr) (body : Stmt) (s : State) :
    Eval.SameUnless s₂.leaveScope (· = .returned v) (forIn ctx ev binding object body)
      (forIn ctx ev' binding object body) s := by
  unfold forIn
  rw [h.expr]
  refine .bind_of_eq rfl fun w s₃ => .bind_of_eq rfl fun st s₄ => ?_
  exact iterate_sameUnless h hreturns binding _ body s₄

theorem forOf_sameUnless (binding : LoopBinding) (iterable : Expr) (body : Stmt) (s : State) :
    Eval.SameUnless s₂.leaveScope (· = .returned v) (forOf ctx ev binding iterable body)
      (forOf ctx ev' binding iterable body) s := by
  unfold forOf
  rw [h.expr]
  refine .bind_of_eq rfl fun w s₃ => .bind_of_eq rfl fun st s₄ => .bind_of_eq rfl fun items s₅ => ?_
  exact iterate_sameUnless h hreturns binding items body s₅

/-! ### Choices -/

theorem ifElse_sameUnless (test : Expr) (consequent : Stmt) (alternate : Option Stmt) (s : State) :
    Eval.SameUnless s₂ (· = .returned v) (ifElse ev test consequent alternate)
      (ifElse ev' test consequent alternate) s := by
  unfold ifElse
  rw [h.expr]
  refine .bind_of_eq rfl fun w s₃ => ?_
  split
  · exact stmt_sameUnless h hreturns consequent s₃
  · cases alternate with
    | none => exact .same rfl
    | some st => exact stmt_sameUnless h hreturns st s₃

theorem whenGuard_sameUnless (test : Expr) (body : List Stmt) (s : State) :
    Eval.SameUnless s₂ (· = .returned v) (whenGuard ev test body) (whenGuard ev' test body) s := by
  unfold whenGuard
  rw [h.expr]
  refine .bind_of_eq rfl fun w s₃ => ?_
  split
  · exact block_sameUnless h hreturns body s₃
  · exact .same rfl

theorem fallThrough_sameUnless (cases : List (Option Expr × List Stmt)) (s : State) :
    Eval.SameUnless s₂ (· = .returned v) (fallThrough ev cases) (fallThrough ev' cases) s := by
  induction cases generalizing s with
  | nil => exact .same rfl
  | cons c cases ih =>
    refine (stmts_sameUnless h hreturns c.2 s).bind (fun c s₃ _ => ?_) ?_
    · cases c with
      | normal w => exact ih s₃
      | broke | continued | returned => exact .same rfl
    · rintro _ - rfl
      exact ⟨_, rfl, rfl⟩

theorem chooseCase_sameUnless (w : Value) (cases : List (Option Expr × List Stmt)) (s : State) :
    Eval.SameUnless s₂ (· = .returned v) (chooseCase ev w cases) (chooseCase ev' w cases) s := by
  induction cases generalizing s with
  | nil => exact .same rfl
  | cons c cases ih =>
    obtain ⟨test, body⟩ := c
    cases test with
    | none => exact fallThrough_sameUnless h hreturns ((none, body) :: cases) s
    | some test =>
      unfold chooseCase
      rw [h.expr]
      refine .bind_of_eq rfl fun t s₃ => ?_
      split
      · exact fallThrough_sameUnless h hreturns ((some test, body) :: cases) s₃
      · exact ih s₃

theorem switch_sameUnless (discriminant : Expr) (cases : List (Option Expr × List Stmt))
    (s : State) :
    Eval.SameUnless s₂.leaveScope (· = .returned v) (switch ev discriminant cases)
      (switch ev' discriminant cases) s := by
  unfold switch
  rw [h.expr]
  exact .bind_of_eq rfl fun w s₃ => .inBlock (chooseCase_sameUnless h hreturns w cases _)

/-! ### Statements without nested statements -/

omit hreturns in
theorem initial_eq (init : Option Expr) : initial ev' init = initial ev init := by
  cases init with
  | none => rfl
  | some e => rw [initial, initial, h.expr]

omit hreturns in
theorem declare_eq (mode : Mode) (span : Span) (ds : List (String × Option Expr)) :
    declare ev' mode span ds = declare ev mode span ds := by
  induction ds with
  | nil => rfl
  | cons d ds ih => rw [declare, declare, initial_eq h, ih]

/-! ### All statements -/

/-- An exported statement whose names are recorded does not return. -/
theorem exported_sameUnless (st : Stmt) (s : State)
    (hnames : ∀ s s' w, ev.stmt st s = .ok (.returned w) s' → exportedNames st = []) :
    Eval.SameUnless s₂ (· = .returned v) (exported ev st) (exported ev' st) s := by
  refine (stmt_sameUnless h hreturns st s).bind (fun c s₃ _ => .same rfl) ?_
  rintro _ hc rfl
  refine ⟨_, ?_, rfl⟩
  show Outcome.ok _ { s₂ with exports := s₂.exports ++ exportedNames st } = _
  rw [hnames s s₂ v hc, List.append_nil]

/-- All constructs but `try`, each by its rule. -/
theorem stmtKind_sameUnless (span : Span) (kind : StmtKind) (s : State)
    (htry : kind.isTry = false)
    (hinit : ∀ init test update body, kind = .forLoop (some init) test update body →
      (part, s₁) ≠ (.stmt init, { s with env := s.env.pushBlock }))
    (hnames : ∀ st s s' w, ev.stmt st s = .ok (.returned w) s' → exportedNames st = []) :
    Eval.SameUnless (if kind.ownsScope then s₂.leaveScope else s₂) (· = .returned v)
      (stmtKind ctx ev span kind) (stmtKind ctx ev' span kind) s := by
  cases kind with
  | expression e =>
    refine .same ?_
    simp only [stmtKind, expression, h.expr]
  | declare kind ds =>
    refine .same ?_
    simp only [stmtKind, declare_eq h]
  | function name params body => exact .same rfl
  | block body => exact block_sameUnless h hreturns body s
  | ifElse test consequent alternate =>
    exact ifElse_sameUnless h hreturns test consequent alternate s
  | whileLoop test body => exact whileLoop_sameUnless h hreturns test body s
  | doWhile body test => exact doWhile_sameUnless h hreturns body test s
  | forLoop init test update body =>
    refine forLoop_sameUnless h hreturns init test update body s fun st hst => ?_
    exact hinit st test update body (by rw [hst])
  | forIn binding object body => exact forIn_sameUnless h hreturns binding object body s
  | forOf binding iterable body => exact forOf_sameUnless h hreturns binding iterable body s
  | switch discriminant cases => exact switch_sameUnless h hreturns discriminant cases s
  | tryCatch block handler finalizer => cases htry
  | throw e =>
    refine .same ?_
    simp only [stmtKind, throwValue, h.expr]
  | ret e =>
    refine .same ?_
    simp only [stmtKind, ret, initial_eq h]
  | breakLoop => exact .same rfl
  | continueLoop => exact .same rfl
  | whenGuard test body => exact whenGuard_sameUnless h hreturns test body s
  | otherwise body => exact block_sameUnless h hreturns body s
  | observe targets handler =>
    refine .same ?_
    simp only [stmtKind, observe, h.expr]
  | importNames specifiers source => exact .same rfl
  | exported st => exact exported_sameUnless h hreturns st s (hnames st)
  | empty => exact .same rfl

/-! ### Handlers -/

theorem catchClause_sameUnless (param : Option String) (body : List Stmt) (thrown : Value)
    (s : State) :
    Eval.SameUnless s₂.leaveScope (· = .returned v) (catchClause ev param body thrown)
      (catchClause ev' param body thrown) s := by
  refine .inBlock ?_
  cases param with
  | none => exact stmts_sameUnless h hreturns body _
  | some name => exact .bind_of_eq rfl fun _ s₃ => stmts_sameUnless h hreturns body s₃

theorem handled_sameUnless (result : Except Failure Completion)
    (handler : Option (Option String × List Stmt)) (s : State) :
    Eval.SameUnless s₂.leaveScope (· = .ok (.returned v)) (handled ev result handler)
      (handled ev' result handler) s := by
  rcases handler with _ | ⟨param, body⟩
  · exact .same rfl
  rcases result with failure | c
  · simp only [handled]
    split
    · refine .bind_of_eq rfl fun _ s₃ => ?_
      rcases (catchClause_sameUnless h hreturns param body failure.thrownValue s₃).attempt with
        hsame | ⟨r, hr, c, rfl, rfl⟩
      · exact .same hsame
      · exact Or.inr ⟨_, hr, rfl⟩
    · exact .same rfl
  · exact .same rfl

end Construct

/-! ## Try statements -/

/-- A `try` statement without its finalizer: what the block comes to, and what the handler makes of
that. -/
def tried (ev : Evaluator) (block : List Stmt) (handler : Option (Option String × List Stmt)) :
    Eval (Except Failure Completion × Except Failure Completion) := do
  let result ← Eval.attempt (ev.block block)
  let outcome ← handled ev result handler
  pure (result, outcome)

theorem tried_eq_ok {ev : Evaluator} {block : List Stmt}
    {handler : Option (Option String × List Stmt)} {result outcome : Except Failure Completion}
    {s s' : State} :
    tried ev block handler s = .ok (result, outcome) s' ↔
      ∃ s₁, (ev.block block).attempt s = .ok result s₁ ∧
        handled ev result handler s₁ = .ok outcome s' := by
  constructor
  · intro h
    obtain ⟨result, s₁, hblock, hrest⟩ := Eval.bind_eq_ok h
    obtain ⟨outcome, s₂, hhandler, hpure⟩ := Eval.bind_eq_ok hrest
    cases hpure
    exact ⟨s₁, hblock, hhandler⟩
  · rintro ⟨s₁, hblock, hhandler⟩
    unfold tried
    rw [Eval.bind_apply, hblock]
    dsimp only
    rw [Eval.bind_apply, hhandler]
    rfl

/-- Where block and handler are through, the finalizer decides. -/
theorem attempt_tryCatch_of_tried {ctx : Context} {fuel : Nat} {block : List Stmt}
    {handler : Option (Option String × List Stmt)} {result outcome r : Except Failure Completion}
    {s s₃ s' : State}
    (h : tried (Evaluator.level ctx fuel) block handler s = .ok (result, outcome) s₃)
    (finalizer : Option (List Stmt)) :
    (tryCatch (Evaluator.level ctx fuel) block handler finalizer).attempt s = .ok r s' ↔
      Finishes ctx fuel result outcome s₃ finalizer r s' := by
  obtain ⟨s₁, hblock, hhandler⟩ := tried_eq_ok.1 h
  have hrest : tryCatch (Evaluator.level ctx fuel) block handler finalizer s =
      finalized (Evaluator.level ctx fuel) (isFailure result) outcome finalizer s₃ := by
    unfold tryCatch
    rw [Eval.bind_apply, hblock]
    dsimp only
    rw [Eval.bind_apply, hhandler]
  rw [← attempt_finalized, Eval.attempt, Eval.attempt, hrest]

/-- A `return` in the block or in the handler is what both come to. -/
theorem tried_of_runs {ev : Evaluator} {part : Nested} {s s₁ s₂ : State} {v : Value}
    {block : List Stmt} {handler : Option (Option String × List Stmt)}
    (hruns : ev.Runs (fun ev => tried ev block handler) s part s₁)
    (hreturns : ev.nested part s₁ = .ok (.returned v) s₂) :
    ∃ result s₃, (s₃ = s₂ ∨ s₃ = s₂.leaveScope) ∧
      tried ev block handler s = .ok (result, .ok (.returned v)) s₃ := by
  obtain ⟨ev', h, hne⟩ := hruns
  change tried ev' block handler s ≠ tried ev block handler s at hne
  rcases (block_sameUnless h hreturns block s).attempt with hsame | ⟨_, hblock, _, rfl, rfl⟩
  · cases hblock : (ev.block block).attempt s with
    | ok result s₃ =>
      rcases handled_sameUnless h hreturns result handler s₃ with hhandler | ⟨_, hhandler, rfl⟩
      · refine absurd ?_ hne
        unfold tried
        rw [Eval.bind_apply, Eval.bind_apply, hsame, hblock]
        dsimp only
        rw [Eval.bind_apply, Eval.bind_apply, hhandler]
      · exact ⟨result, _, Or.inr rfl, tried_eq_ok.2 ⟨s₃, hblock, hhandler⟩⟩
    | error _ _ => exact absurd hblock Eval.attempt_ne_error
    | exhausted =>
      refine absurd ?_ hne
      unfold tried
      rw [Eval.bind_apply, Eval.bind_apply, hsame, hblock]
  · -- The handler has nothing to do after a block that did not fail.
    have hhandler : handled ev (.ok (.returned v)) handler s₂ = .ok (.ok (.returned v)) s₂ := by
      cases handler <;> rfl
    exact ⟨_, s₂, Or.inl rfl, tried_eq_ok.2 ⟨s₂, hblock, hhandler⟩⟩

/-! ## Statements and lists -/

/-- After its initializer a `for` loop comes to what its rounds come to, whatever the initializer
completed with. -/
theorem forLoop_of_init {ev : Evaluator} {init body : Stmt} {test update : Option Expr}
    {c : Completion} {s s₀ : State}
    (hinit : ev.stmt init { s with env := s.env.pushBlock } = .ok c s₀) :
    forLoop ev (some init) test update body s =
      (Eval.repeating (forRound ev test update body) ev.rounds s₀).mapState State.leaveScope := by
  show Outcome.mapState _ ((ev.stmt init >>= fun _ => _) _) = _
  rw [Eval.bind_apply, hinit]

theorem stmt_eq_executing (ctx : Context) (ev : Evaluator) (st : Stmt) (s : State) :
    Rule.stmt ctx ev st s = if s.interrupted then .error .interrupted s
      else Eval.locating st.span (stmtKind ctx ev st.span st.kind) (s.executing ctx st) := by
  unfold Rule.stmt State.executing Eval.locating
  rw [Eval.bind_apply]
  cases ctx.trace <;> rfl

/-- What a statement exports is declared or named by it, and does not return. -/
theorem exportedNames_eq_nil {ctx : Context} {n : Nat} {st : Stmt} {s s' : State} {v : Value}
    (h : (Evaluator.level ctx n).stmt st s = .ok (.returned v) s') : exportedNames st = [] := by
  by_contra hnames
  have hscoped : st.isScoped .all .none = true := by
    have hall := isScoped_all.2.1 st
    obtain ⟨span, kind⟩ := st
    cases kind <;> first | exact hall | exact absurd rfl hnames
  cases Evaluator.allows_of_isScoped hscoped h

end Rule

namespace Evaluator

variable {ctx : Context} {n : Nat} {part : Nested} {s s₁ s₂ : State} {v : Value}

/-- A statement whose part returns has no more to do than to leave its own scope. -/
theorem stmt_returns {span : Span} {kind : StmtKind} (htry : kind.isTry = false)
    (hinit : ∀ init test update body, kind = .forLoop (some init) test update body →
      (part, s₁) ≠
        (.stmt init, { s.executing ctx (.node span kind) with env := s.env.pushBlock }))
    (hruns : (level ctx n).Runs (fun ev => Rule.stmt ctx ev (.node span kind)) s part s₁)
    (hreturns : (level ctx n).nested part s₁ = .ok (.returned v) s₂) :
    (level ctx (n + 1)).stmt (.node span kind) s =
      .ok (.returned v) (if kind.ownsScope then s₂.leaveScope else s₂) := by
  obtain ⟨ev', h, hne⟩ := hruns
  change Rule.stmt ctx ev' _ s ≠ Rule.stmt ctx (level ctx n) _ s at hne
  show Rule.stmt ctx (level ctx n) (.node span kind) s = _
  rw [Rule.stmt_eq_executing, Rule.stmt_eq_executing] at hne
  rw [Rule.stmt_eq_executing]
  by_cases hgo : s.interrupted = true
  · rw [if_pos hgo, if_pos hgo] at hne
    exact absurd rfl hne
  · rw [if_neg hgo, if_neg hgo] at hne
    rw [if_neg hgo]
    have hnames : ∀ (st : Stmt) (s s' : State) (w : Value),
        (level ctx n).stmt st s = .ok (.returned w) s' → Rule.exportedNames st = [] :=
      fun _ _ _ _ => Rule.exportedNames_eq_nil
    have hkind : Eval.SameUnless (if kind.ownsScope then s₂.leaveScope else s₂) (· = .returned v)
        (Rule.stmtKind ctx (level ctx n) span kind) (Rule.stmtKind ctx ev' span kind)
        (s.executing ctx (.node span kind)) :=
      Rule.stmtKind_sameUnless h hreturns span kind _ htry hinit hnames
    rcases hkind.locating span with hsame | ⟨_, hok, rfl⟩
    · exact absurd hsame hne
    · exact hok

/-- A `for` loop whose initializer is through, and one of whose rounds runs a part that returns. The
part may be the statement of the initializer again. -/
theorem forRounds_return {span : Span} {init body : Stmt} {test update : Option Expr}
    {c : Completion} {s₀ : State} (hgo : s.interrupted = false)
    (hinit : (level ctx n).stmt init
      { s.executing ctx (.node span (.forLoop (some init) test update body)) with
        env := s.env.pushBlock } = .ok c s₀)
    (hruns : (level ctx n).Runs
      (fun ev => Eval.repeating (Rule.forRound ev test update body) ev.rounds) s₀ part s₁)
    (hreturns : (level ctx n).nested part s₁ = .ok (.returned v) s₂) :
    (level ctx (n + 1)).stmt (.node span (.forLoop (some init) test update body)) s =
      .ok (.returned v) s₂.leaveScope := by
  obtain ⟨ev', h, hne⟩ := hruns
  rcases Rule.forRounds_sameUnless h hreturns test update body s₀ with hsame | ⟨_, hok, rfl⟩
  · exact absurd hsame hne
  · have hloop : Rule.forLoop (level ctx n) (some init) test update body
        (s.executing ctx (.node span (.forLoop (some init) test update body))) =
          .ok (.returned v) s₂.leaveScope := by
      rw [Rule.forLoop_of_init hinit, hok]
      rfl
    show Rule.stmt ctx (level ctx n) _ s = _
    rw [Rule.stmt_eq_executing, hgo]
    show (Rule.forLoop (level ctx n) (some init) test update body _).mapError _ = _
    rw [hloop]
    rfl

/-- A list ends with a statement that returns. -/
theorem stmts_returns {body : List Stmt}
    (hruns : (level ctx n).Runs (fun ev => ev.stmts body) s part s₁)
    (hreturns : (level ctx n).nested part s₁ = .ok (.returned v) s₂) :
    (level ctx n).stmts body s = .ok (.returned v) s₂ := by
  obtain ⟨ev', h, hne⟩ := hruns
  rcases Rule.stmts_sameUnless h hreturns body s with hsame | ⟨_, hok, rfl⟩
  · exact absurd hsame hne
  · exact hok

/-- A call takes the value of a `return` in its body. -/
theorem call_returns {ref : Ref} {args : List Value} {receiver : Option Value}
    (hruns : (level ctx n).Runs (fun ev => Rule.callFunction ctx ev ref args receiver) s part s₁)
    (hreturns : (level ctx n).nested part s₁ = .ok (.returned v) s₂) :
    (level ctx (n + 1)).call (.function ref) args receiver s =
      .ok v { s₂ with env := s₂.env.endCall } := by
  obtain ⟨ev', h, hne⟩ := hruns
  change Rule.callFunction ctx ev' ref args receiver s ≠
    Rule.callFunction ctx (level ctx n) ref args receiver s at hne
  show Rule.callFunction ctx (level ctx n) ref args receiver s = _
  unfold Rule.callFunction Eval.inCall at hne ⊢
  dsimp only at hne ⊢
  cases hcall : s.env.beginCall (s.store.function ref) (.function ref) with
  | error e =>
    rw [hcall] at hne
    exact absurd rfl hne
  | ok env =>
    rw [hcall] at hne
    dsimp only at hne ⊢
    have hbody : Eval.SameUnless s₂ (· = v)
        (Rule.callBody ctx (level ctx n) (s.store.function ref) args receiver)
        (Rule.callBody ctx ev' (s.store.function ref) args receiver) { s with env } := by
      refine .bind_of_eq rfl fun env' s₃ => .bind_of_eq rfl fun _ s₄ => .bind_of_eq rfl
        fun _ s₅ => ?_
      refine (Rule.stmts_sameUnless h hreturns _ s₅).bind (fun c s₆ _ => .same rfl) ?_
      rintro _ - rfl
      exact ⟨v, rfl, rfl⟩
    rcases hbody with hsame | ⟨_, hok, rfl⟩
    · rw [hsame] at hne
      exact absurd rfl hne
    · rw [hok]
      rfl

end Evaluator

/-! ## Calls -/

/-- A finalizer that leaves a `return` alone: there is none, or it completes normally, or it fails
after a block that failed before it. -/
inductive Rule.Yields (ctx : Context) (n : Nat) (result : Except Failure Completion) (s : State) :
    Option (List Stmt) → Prop where
  | absent : Yields ctx n result s none
  | normal {body : List Stmt} {v : Value} {s' : State}
    (hbody : Interpreter.execBlock ctx n body s = .ok (.normal v) s') :
    Yields ctx n result s (some body)
  | discarded {body : List Stmt} {first failure : Failure} {s' : State}
    (hresult : result = .error first) (hraised : failure ≠ .interrupted)
    (hbody : Interpreter.execBlock ctx n body s = .error failure s') :
    Yields ctx n result s (some body)

/-- A `return` with a value is executed in a part, it is not in the initializer of a `for` loop
there, and no finalizer between it and the part overrides it. The parts of a part are those that its
construct runs. -/
inductive Evaluator.Sends (ctx : Context) : Nat → Nested → State → Value → Prop where
  | ret {n : Nat} {span : Span} {e : Option Expr} {s s' : State} {v : Value}
    (hgo : s.interrupted = false)
    (hvalue : Rule.initial (level ctx n) e (s.executing ctx (.node span (.ret e))) = .ok v s') :
    Sends ctx (n + 1) (.stmt (.node span (.ret e))) s v
  | inside {n : Nat} {span : Span} {kind : StmtKind} {s s₁ : State} {part : Nested} {v : Value}
    (htry : kind.isTry = false)
    (hinit : ∀ init test update body, kind = .forLoop (some init) test update body →
      (part, s₁) ≠
        (.stmt init, { s.executing ctx (.node span kind) with env := s.env.pushBlock }))
    (hruns : (level ctx n).Runs (fun ev => Rule.stmt ctx ev (.node span kind)) s part s₁)
    (hpart : Sends ctx n part s₁ v) : Sends ctx (n + 1) (.stmt (.node span kind)) s v
  | inRound {n : Nat} {span : Span} {init body : Stmt} {test update : Option Expr}
    {c : Completion} {s s₀ s₁ : State} {part : Nested} {v : Value} (hgo : s.interrupted = false)
    (hinit : (level ctx n).stmt init
      { s.executing ctx (.node span (.forLoop (some init) test update body)) with
        env := s.env.pushBlock } = .ok c s₀)
    (hruns : (level ctx n).Runs
      (fun ev => Eval.repeating (Rule.forRound ev test update body) ev.rounds) s₀ part s₁)
    (hpart : Sends ctx n part s₁ v) :
    Sends ctx (n + 1) (.stmt (.node span (.forLoop (some init) test update body))) s v
  | list {n : Nat} {body : List Stmt} {s s₁ : State} {part : Nested} {v : Value}
    (hruns : (level ctx n).Runs (fun ev => ev.stmts body) { s with env := s.env.pushBlock }
      part s₁)
    (hpart : Sends ctx n part s₁ v) : Sends ctx (n + 1) (.block body) s v
  | tried {n : Nat} {span : Span} {block : List Stmt}
    {handler : Option (Option String × List Stmt)} {finalizer : Option (List Stmt)}
    {s s₁ s₃ : State} {part : Nested} {result outcome : Except Failure Completion} {v : Value}
    (hgo : s.interrupted = false)
    (hruns : (level ctx n).Runs (fun ev => Rule.tried ev block handler)
      (s.executing ctx (.node span (.tryCatch block handler finalizer))) part s₁)
    (hpart : Sends ctx n part s₁ v)
    (htried : Rule.tried (level ctx n) block handler
      (s.executing ctx (.node span (.tryCatch block handler finalizer))) =
        .ok (result, outcome) s₃)
    (hyields : Rule.Yields ctx n result s₃ finalizer) :
    Sends ctx (n + 1) (.stmt (.node span (.tryCatch block handler finalizer))) s v
  | finalizer {n : Nat} {span : Span} {block body : List Stmt}
    {handler : Option (Option String × List Stmt)} {s s₃ : State}
    {result outcome : Except Failure Completion} {v : Value} (hgo : s.interrupted = false)
    (htried : Rule.tried (level ctx n) block handler
      (s.executing ctx (.node span (.tryCatch block handler (some body)))) =
        .ok (result, outcome) s₃)
    (hbody : Sends ctx n (.block body) s₃ v) :
    Sends ctx (n + 1) (.stmt (.node span (.tryCatch block handler (some body)))) s v

namespace Evaluator

variable {ctx : Context} {n : Nat} {part : Nested} {s s₁ s₂ : State} {v : Value}

/-- A `try` statement comes to what block, handler and finalizer come to. -/
theorem stmt_tryCatch_eq {span : Span} {block : List Stmt}
    {handler : Option (Option String × List Stmt)} {finalizer : Option (List Stmt)}
    {c : Completion} (hgo : s.interrupted = false)
    (h : (Rule.tryCatch (level ctx n) block handler finalizer).attempt
      (s.executing ctx (.node span (.tryCatch block handler finalizer))) = .ok (.ok c) s₂) :
    (level ctx (n + 1)).stmt (.node span (.tryCatch block handler finalizer)) s = .ok c s₂ := by
  have hkind := Eval.attempt_eq_ok_ok.1 h
  show Rule.stmt ctx (level ctx n) _ s = _
  rw [Rule.stmt_eq_executing, hgo]
  show (Rule.tryCatch _ _ _ _ _).mapError _ = _
  rw [hkind]
  rfl

/-- By induction on the way from the part to the `return`. -/
theorem Sends.returns (h : Sends ctx n part s v) :
    ∃ s', (level ctx n).nested part s = .ok (.returned v) s' := by
  induction h with
  | @ret n span e s s' v hgo hvalue =>
    refine ⟨s', ?_⟩
    show Rule.stmt ctx (level ctx n) (.node span (.ret e)) s = _
    rw [Rule.stmt_eq_executing, hgo]
    show ((Rule.initial (level ctx n) e >>= _) _).mapError _ = _
    rw [Eval.bind_apply, hvalue]
    rfl
  | inside htry hinit hruns _ ih =>
    obtain ⟨s₂, hreturns⟩ := ih
    exact ⟨_, stmt_returns htry hinit hruns hreturns⟩
  | inRound hgo hinit hruns _ ih =>
    obtain ⟨s₂, hreturns⟩ := ih
    exact ⟨_, forRounds_return hgo hinit hruns hreturns⟩
  | @list n body s s₁ part v hruns _ ih =>
    obtain ⟨s₂, hreturns⟩ := ih
    refine ⟨s₂.leaveScope, ?_⟩
    show Eval.inBlock ((level ctx n).stmts body) s = _
    unfold Eval.inBlock
    rw [stmts_returns hruns hreturns]
    rfl
  | @tried n span block handler finalizer s s₁ s₃ part result outcome v hgo hruns _ htried hyields
      ih =>
    obtain ⟨s₂, hreturns⟩ := ih
    obtain ⟨result, s₄, -, hboth⟩ := Rule.tried_of_runs hruns hreturns
    cases htried.symm.trans hboth
    have hstands : ∃ s', Rule.Finishes ctx n result (.ok (.returned v)) s₃ finalizer
        (.ok (.returned v)) s' := by
      cases hyields with
      | absent => exact ⟨_, .absent⟩
      | normal hbody => exact ⟨_, .normal hbody⟩
      | discarded hresult hraised hbody => exact ⟨_, .discarded hresult hraised hbody⟩
    obtain ⟨s', hfinishes⟩ := hstands
    exact ⟨s', stmt_tryCatch_eq hgo ((Rule.attempt_tryCatch_of_tried htried _).2 hfinishes)⟩
  | @finalizer n span block body handler s s₃ result outcome v hgo htried _ ih =>
    obtain ⟨s', hbody⟩ := ih
    have hfinishes : Rule.Finishes ctx n result outcome s₃ (some body) (.ok (.returned v)) s' :=
      .abrupt rfl hbody
    exact ⟨s', stmt_tryCatch_eq hgo ((Rule.attempt_tryCatch_of_tried htried _).2 hfinishes)⟩

end Evaluator

/-- A `return` reaches its call. If a construct runs a nested statement or block that completes with
a `return`, then the construct completes with it as well and does nothing more than to leave its own
scope: every statement but `try`, where nothing is said of the initializer of a `for` loop, and
every list. The rounds of a `for` loop are under this law also where they run the statement of the
initializer again. The same holds of the block and the handler of a `try` statement together. The
finalizer is still executed then, from the state that they leave: an abrupt completion of it takes
over, and so does its error, unless the block had raised one; in that case the error of the
finalizer is logged and the `return` stands. Therefore a call whose body executes a `return` outside
of the initializers of `for` loops, which no finalizer overrides, has the value of that `return`. -/
theorem return_reaches_its_call (ctx : Context) (fuel : Nat) (part : Nested) (s s₁ s₂ : State)
    (v : Value) :
    (∀ span kind, kind.isTry = false →
      (∀ init test update body, kind = .forLoop (some init) test update body →
        (part, s₁) ≠
          (.stmt init, { s.executing ctx (.node span kind) with env := s.env.pushBlock })) →
      (Evaluator.level ctx fuel).Runs (fun ev => Rule.stmt ctx ev (.node span kind)) s part s₁ →
      (Evaluator.level ctx fuel).nested part s₁ = .ok (.returned v) s₂ →
      execStmt ctx (fuel + 1) (.node span kind) s =
        .ok (.returned v) (if kind.ownsScope then { s₂ with env := s₂.env.pop } else s₂)) ∧
    (∀ span init test update body c s₀, s.interrupted = false →
      (Evaluator.level ctx fuel).stmt init
        { s.executing ctx (.node span (.forLoop (some init) test update body)) with
          env := s.env.pushBlock } = .ok c s₀ →
      (Evaluator.level ctx fuel).Runs
        (fun ev => Eval.repeating (Rule.forRound ev test update body) ev.rounds) s₀ part s₁ →
      (Evaluator.level ctx fuel).nested part s₁ = .ok (.returned v) s₂ →
      execStmt ctx (fuel + 1) (.node span (.forLoop (some init) test update body)) s =
        .ok (.returned v) { s₂ with env := s₂.env.pop }) ∧
    (∀ body, (Evaluator.level ctx fuel).Runs (fun ev => ev.stmts body) s part s₁ →
      (Evaluator.level ctx fuel).nested part s₁ = .ok (.returned v) s₂ →
      execStmts ctx fuel body s = .ok (.returned v) s₂) ∧
    (∀ block handler,
      (Evaluator.level ctx fuel).Runs (fun ev => Rule.tried ev block handler) s part s₁ →
      (Evaluator.level ctx fuel).nested part s₁ = .ok (.returned v) s₂ →
      ∃ result s₃, (s₃ = s₂ ∨ s₃ = { s₂ with env := s₂.env.pop }) ∧
        Rule.tried (Evaluator.level ctx fuel) block handler s =
          .ok (result, .ok (.returned v)) s₃) ∧
    (∀ block handler finalizer result outcome s₃ r s',
      Rule.tried (Evaluator.level ctx fuel) block handler s = .ok (result, outcome) s₃ →
      ((Rule.tryCatch (Evaluator.level ctx fuel) block handler finalizer).attempt s = .ok r s' ↔
        Rule.Finishes ctx fuel result outcome s₃ finalizer r s')) ∧
    ∀ ref args receiver,
      (Evaluator.level ctx fuel).Runs (fun ev => Rule.callFunction ctx ev ref args receiver) s
        part s₁ →
      Evaluator.Sends ctx fuel part s₁ v →
      ∃ s', callValue ctx (fuel + 1) (.function ref) args receiver s = .ok v s' := by
  refine ⟨fun span kind htry hinit hruns hreturns =>
      Evaluator.stmt_returns htry hinit hruns hreturns,
    fun span init test update body c s₀ hgo hinit hruns hreturns =>
      Evaluator.forRounds_return hgo hinit hruns hreturns,
    fun body hruns hreturns => Evaluator.stmts_returns hruns hreturns,
    fun block handler hruns hreturns => Rule.tried_of_runs hruns hreturns,
    fun block handler finalizer result outcome s₃ r s' htried =>
      Rule.attempt_tryCatch_of_tried htried finalizer, ?_⟩
  intro ref args receiver hruns hsends
  obtain ⟨s₂, hreturns⟩ := hsends.returns
  exact ⟨_, Evaluator.call_returns hruns hreturns⟩

/-- A `return`. -/
def returnTrue : Stmt := Stmt.of (.ret (some (Expr.of (.literal (.bool true)))))

/-- A `return` in the block of a `try` statement with a finalizer. -/
def returnInTry : Stmt := Stmt.of (.tryCatch [returnTrue] none (some []))

/-- A `for` loop with a `return` as its body, and the same one as its initializer. -/
def returnInLoop : Stmt := Stmt.of (.forLoop (some returnTrue) none none returnTrue)

/-- A function that consists of the `try` statement. -/
def returningFunction : State := { store := { functions := #[⟨none, [], [returnInTry], []⟩] } }

/-- The body of the function starts. -/
def returningBody : State :=
  { returningFunction with
    env := Rule.bindCall
      ({ returningFunction.env with callDepth := 1 }.pushCall ⟨none, [], [returnInTry], []⟩
        (.function 0)) [] [] none }

/-- The function is left by way of its list, of the block of the `try` statement and of that
statement. The loop is left by its body, which is the statement of its initializer once more. -/
theorem return_reaches_its_call_returningFunction :
    let s := returningBody
    let inner : State := { s with env := s.env.pushBlock }
    let outer : State := { s with env := s.env.pushBlock.pop }
    ((Evaluator.level plainContext 3).Runs
        (fun ev => Rule.stmt plainContext ev (Stmt.of (.block [returnTrue]))) s
        (.block [returnTrue]) s ∧
      (Evaluator.level plainContext 3).nested (.block [returnTrue]) s =
        .ok (.returned (.bool true)) outer ∧
      execStmt plainContext 4 (Stmt.of (.block [returnTrue])) s =
        .ok (.returned (.bool true)) outer) ∧
    ((Evaluator.level plainContext 3).stmt returnTrue inner =
        .ok (.returned (.bool true)) inner ∧
      (Evaluator.level plainContext 3).Runs
        (fun ev => Eval.repeating (Rule.forRound ev none none returnTrue) ev.rounds) inner
        (.stmt returnTrue) inner ∧
      execStmt plainContext 4 returnInLoop s = .ok (.returned (.bool true)) outer) ∧
    ((Evaluator.level plainContext 2).Runs (fun ev => ev.stmts [returnTrue]) inner
        (.stmt returnTrue) inner ∧
      (Evaluator.level plainContext 2).nested (.stmt returnTrue) inner =
        .ok (.returned (.bool true)) inner ∧
      execStmts plainContext 2 [returnTrue] inner = .ok (.returned (.bool true)) inner) ∧
    ((Evaluator.level plainContext 3).Runs (fun ev => Rule.tried ev [returnTrue] none) s
        (.block [returnTrue]) s ∧
      (∃ result s₃, (s₃ = outer ∨ s₃ = { outer with env := outer.env.pop }) ∧
        Rule.tried (Evaluator.level plainContext 3) [returnTrue] none s =
          .ok (result, .ok (.returned (.bool true))) s₃) ∧
      (Rule.tryCatch (Evaluator.level plainContext 3) [returnTrue] none (some [])).attempt s =
        .ok (.ok (.returned (.bool true))) { outer with env := outer.env.pushBlock.pop }) ∧
    (Evaluator.level plainContext 4).Runs
        (fun ev => Rule.callFunction plainContext ev 0 [] none) returningFunction
        (.stmt returnInTry) s ∧
      Evaluator.Sends plainContext 4 (.stmt returnInTry) s (.bool true) ∧
      ∃ s', callValue plainContext 5 (.function 0) [] none returningFunction =
        .ok (.bool true) s' := by
  intro s inner outer
  have hstmt : (Evaluator.level plainContext 3).Runs
      (fun ev => Rule.stmt plainContext ev (Stmt.of (.block [returnTrue]))) s
      (.block [returnTrue]) s :=
    Evaluator.runs_block rfl (fun h => by cases h) rfl
  have hround : (Evaluator.level plainContext 3).Runs
      (fun ev => Eval.repeating (Rule.forRound ev none none returnTrue) ev.rounds) inner
      (.stmt returnTrue) inner := by
    refine Evaluator.runs_of_without ?_ fun h => by cases h
    have hstuck : ((Evaluator.level plainContext 3).without (.stmt returnTrue) inner).stmt
        returnTrue inner = .exhausted :=
      Evaluator.without_nested _ (.stmt returnTrue) inner
    have hbody : Rule.forRound ((Evaluator.level plainContext 3).without (.stmt returnTrue) inner)
        none none returnTrue inner = .exhausted := by
      show (Rule.bodyThen _ returnTrue _) inner = .exhausted
      unfold Rule.bodyThen Rule.loopBody
      rw [Eval.bind_apply, Eval.bind_apply, hstuck]
    show Eval.repeating _ 3 inner = .exhausted
    rw [Eval.repeating_succ, Eval.bind_apply, hbody]
  have hlist : (Evaluator.level plainContext 2).Runs (fun ev => ev.stmts [returnTrue]) inner
      (.stmt returnTrue) inner :=
    Evaluator.runs_stmts rfl fun h => by cases h
  have hblock : (Evaluator.level plainContext 3).Runs (fun ev => Rule.tried ev [returnTrue] none) s
      (.block [returnTrue]) s := by
    refine Evaluator.runs_of_without ?_ fun h => by cases h
    have hstuck : ((Evaluator.level plainContext 3).without (.block [returnTrue]) s).block
        [returnTrue] s = .exhausted :=
      Evaluator.without_nested _ (.block [returnTrue]) s
    unfold Rule.tried
    rw [Eval.bind_apply, Eval.attempt, hstuck]
  have hcall : (Evaluator.level plainContext 4).Runs
      (fun ev => Rule.callFunction plainContext ev 0 [] none) returningFunction
      (.stmt returnInTry) s := by
    refine Evaluator.runs_of_without ?_ fun h => by cases h
    have hstuck : ((Evaluator.level plainContext 4).without (.stmt returnInTry) s).stmts
        [returnInTry] s = .exhausted :=
      Evaluator.stmts_of_stuck rfl (Evaluator.without_nested _ (.stmt returnInTry) s)
    show Outcome.mapState _ ((Evaluator.stmts _ [returnInTry] >>= Rule.callResult) s) = _
    rw [Eval.bind_apply, hstuck]
    rfl
  have hsends : Evaluator.Sends plainContext 4 (.stmt returnInTry) s (.bool true) :=
    .tried rfl hblock (.list hlist (.ret rfl rfl)) rfl (.normal rfl)
  obtain ⟨hstmts, -⟩ := return_reaches_its_call plainContext 3 (.block [returnTrue]) s s outer
    (.bool true)
  obtain ⟨-, hloops, -⟩ := return_reaches_its_call plainContext 3 (.stmt returnTrue) s inner inner
    (.bool true)
  obtain ⟨-, -, hlists, -⟩ := return_reaches_its_call plainContext 2 (.stmt returnTrue) inner inner
    inner (.bool true)
  obtain ⟨-, -, -, htried, hfinalized, -⟩ := return_reaches_its_call plainContext 3
    (.block [returnTrue]) s s outer (.bool true)
  obtain ⟨-, -, -, -, -, hcalls⟩ := return_reaches_its_call plainContext 4 (.stmt returnInTry)
    returningFunction s outer (.bool true)
  exact ⟨⟨hstmt, rfl, hstmts Span.unknown (.block [returnTrue]) rfl (fun _ _ _ _ h => by cases h)
      hstmt rfl⟩, ⟨rfl, hround, hloops Span.unknown returnTrue none none returnTrue _ _ rfl rfl
      hround rfl⟩, ⟨hlist, rfl, hlists _ hlist rfl⟩,
    ⟨hblock, htried _ _ hblock rfl, (hfinalized _ _ _ _ _ _ _ _ rfl).2 (.normal rfl)⟩,
    hcall, hsends, hcalls 0 [] none hcall hsends⟩

/-- A `try` statement whose block fails, whose handler returns, and whose finalizer fails. -/
def failingFinalizer : Stmt :=
  Stmt.of (.tryCatch [Stmt.of (.throw (Expr.of (.literal .null)))] (some (none, [returnTrue]))
    (some [Stmt.of (.throw (Expr.of (.literal (.bool false))))]))

/-- The error of a finalizer does not take over if the block had raised one: the `return` of the
handler stands. -/
theorem failing_finalizer_gives_way : ∃ first failure s₂ s₃ s₄,
    Rule.tried (Evaluator.level plainContext 4) [Stmt.of (.throw (Expr.of (.literal .null)))]
        (some (none, [returnTrue])) {} = .ok (.error first, .ok (.returned (.bool true))) s₂ ∧
      Interpreter.execBlock plainContext 4
        [Stmt.of (.throw (Expr.of (.literal (.bool false))))] s₂ = .error failure s₃ ∧
      execStmt plainContext 5 failingFinalizer {} = .ok (.returned (.bool true)) s₄ :=
  ⟨_, _, _, _, _, rfl, rfl, rfl⟩

end ReactiveScript
