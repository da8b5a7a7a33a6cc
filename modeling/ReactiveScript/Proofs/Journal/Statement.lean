import ReactiveScript.Eval.Fuel
import ReactiveScript.Proofs.Journal.Expression

/-!
# Journals of statements

The journals of loops and statements, and one lemma for each rule. Of all statements, only a loop
over items that declares no variable makes an entry of its own: it assigns to a variable before each
round. From all rules together, `Journals.kept_level`: at every level there are journals, and the
evaluator executes the assignments in them.
-/

namespace ReactiveScript

namespace Journal

variable (ctx : Context) (ev : Evaluator) (js : Journals)

/-- An expression that may be left out. -/
def optional : Option Expr → Journal
  | none => blank
  | some e => js.expr e

/-! ## Loops -/

/-- One more round as long as a test holds. -/
def whileTrue (test : Expr) (j : Journal) : Journal :=
  andThen (ev.expr test) (js.expr test) fun v => if v.isTruthy then j else blank

/-- The body of a loop, and then something else if the loop goes on. -/
def bodyThen (body : Stmt) (j : Journal) : Journal :=
  andThen (Rule.loopBody ev body) (js.stmt body) fun round => match round with
    | .again => j
    | .finish _ => blank

/-- A `while` loop. -/
def whileLoop (test : Expr) (body : Stmt) : Journal :=
  repeating (do
      Eval.checkInterrupt
      Rule.whileTrue ev test (Rule.loopBody ev body))
    (after Eval.checkInterrupt fun _ => whileTrue ev js test (js.stmt body)) ev.rounds

/-- A `do`-`while` loop. -/
def doWhile (body : Stmt) (test : Expr) : Journal :=
  repeating (do
      Eval.checkInterrupt
      Rule.bodyThen ev body (Rule.whileTrue ev test (pure .again)))
    (after Eval.checkInterrupt fun _ => bodyThen ev js body (js.expr test)) ev.rounds

/-- One round of a `for` loop. -/
def forRound (test update : Option Expr) (body : Stmt) : Journal :=
  after Eval.checkInterrupt fun _ => match test with
    | none => bodyThen ev js body (optional js update)
    | some test => whileTrue ev js test (bodyThen ev js body (optional js update))

/-- A `for` loop, after its initializer. -/
def forLoop (init : Option Stmt) (test update : Option Expr) (body : Stmt) : Journal :=
  let rounds := repeating (Rule.forRound ev test update body) (forRound ev js test update body)
    ev.rounds
  inBlock (match init with
    | none => rounds
    | some init => andThen (ev.stmt init) (js.stmt init) fun _ => rounds)

/-- An item for the variable of a loop. A declared variable is set, which is no assignment. -/
def bindItem (binding : LoopBinding) (item : Value) : Journal :=
  match binding.kind with
  | some _ => blank
  | none => entry binding.name item

/-- One round of a loop over items. -/
def itemRound (binding : LoopBinding) (body : Stmt) (item : Value) : Journal :=
  after Eval.checkInterrupt fun _ =>
    andThen (Rule.bindItem binding item) (bindItem binding item) fun _ => js.stmt body

/-- A loop over items. -/
def iterate (binding : LoopBinding) (items : List Value) (body : Stmt) : Journal :=
  let rounds := forEach (Rule.itemRound ev binding body) (itemRound js binding body) items
  inBlock (match binding.kind with
    | some kind =>
      after (Eval.modifyEnv fun env => env.define binding.name .null kind.mode) fun _ => rounds
    | none => rounds)

/-- A `for`-`in` loop. -/
def forIn (binding : LoopBinding) (object : Expr) (body : Stmt) : Journal :=
  andThen (ev.expr object) (js.expr object) fun v =>
    after Eval.store fun st => iterate ev js binding (Rule.keysOf ctx st v) body

/-- A `for`-`of` loop. -/
def forOf (binding : LoopBinding) (iterable : Expr) (body : Stmt) : Journal :=
  andThen (ev.expr iterable) (js.expr iterable) fun v =>
    after Eval.store fun st =>
      after (Eval.ofExcept (Rule.itemsOf ctx st v)) fun items => iterate ev js binding items body

/-! ## Statements -/

/-- The declarators of a declaration in order. To declare a variable is not to assign to it. -/
def declare (mode : Mode) (span : Span) : List (String × Option Expr) → Journal
  | [] => blank
  | (name, init) :: rest =>
    andThen (Rule.initial ev init) (optional js init) fun v =>
      after (fun s => (Eval.tryEnv (fun env => env.declare mode name v (some span)) s).mapError
        (·.withSpan span)) fun _ => declare mode span rest

/-- The branch of an `if` statement that its test chooses. -/
def ifElse (test : Expr) (consequent : Stmt) (alternate : Option Stmt) : Journal :=
  andThen (ev.expr test) (js.expr test) fun v =>
    if v.isTruthy then js.stmt consequent
    else
      match alternate with
      | some st => js.stmt st
      | none => blank

/-- The bodies of cases one after the other. -/
def fallThrough : List (Option Expr × List Stmt) → Journal
  | [] => blank
  | (_, body) :: rest =>
    andThen (ev.stmts body) (stmts ev js body) fun completion => match completion with
      | .normal _ => fallThrough rest
      | _ => blank

/-- The tests of cases up to the first that matches, and then the bodies from there. -/
def chooseCase (v : Value) : List (Option Expr × List Stmt) → Journal
  | [] => blank
  | (none, body) :: rest => fallThrough ev js ((none, body) :: rest)
  | (some test, body) :: rest =>
    andThen (ev.expr test) (js.expr test) fun t =>
      if v.strictEquals t then fallThrough ev js ((some test, body) :: rest)
      else chooseCase v rest

/-- A `switch` statement. -/
def switch (discriminant : Expr) (cases : List (Option Expr × List Stmt)) : Journal :=
  andThen (ev.expr discriminant) (js.expr discriminant) fun v =>
    inBlock (chooseCase ev js v cases)

/-- A handler. To bind what was thrown is not to assign. -/
def catchClause (param : Option String) (body : List Stmt) (thrown : Value) : Journal :=
  inBlock (match param with
    | some name =>
      after (Eval.modifyEnv fun env => env.define name thrown .blockMutable) fun _ =>
        stmts ev js body
    | none => stmts ev js body)

/-- The handler of a `try` statement, if it runs. -/
def handled (result : Except Failure Completion) :
    Option (Option String × List Stmt) → Journal
  | none => blank
  | some (param, body) =>
    match result with
    | .ok _ => blank
    | .error failure =>
      if failure.isCatchable then
        after (Eval.emit (.caught failure.message)) fun _ =>
          catchClause ev js param body failure.thrownValue
      else blank

/-- The finalizer of a `try` statement. -/
def finalized : Option (List Stmt) → Journal
  | none => blank
  | some body => js.block body

/-- A `try` statement. -/
def tryCatch (block : List Stmt) (handler : Option (Option String × List Stmt))
    (finalizer : Option (List Stmt)) : Journal :=
  andThen (ev.block block).attempt (js.block block) fun result =>
    andThen (Rule.handled ev result handler) (handled ev js result handler) fun _ =>
      finalized js finalizer

/-- What stands at a statement. -/
def stmtKind (span : Span) : StmtKind → Journal
  | .expression e => js.expr e
  | .declare kind declarators => declare ev js kind.mode span declarators
  | .block body | .otherwise body => js.block body
  | .ifElse test consequent alternate => ifElse ev js test consequent alternate
  | .whileLoop test body => whileLoop ev js test body
  | .doWhile body test => doWhile ev js body test
  | .forLoop init test update body => forLoop ev js init test update body
  | .forIn binding object body => forIn ctx ev js binding object body
  | .forOf binding iterable body => forOf ctx ev js binding iterable body
  | .switch discriminant cases => switch ev js discriminant cases
  | .tryCatch block handler finalizer => tryCatch ev js block handler finalizer
  | .throw e => js.expr e
  | .ret e => optional js e
  | .whenGuard test body =>
    andThen (ev.expr test) (js.expr test) fun v => if v.isTruthy then js.block body else blank
  | .observe _ handler => js.expr handler
  | .exported st => js.stmt st
  | .function _ _ _ | .breakLoop | .continueLoop | .importNames _ _ | .empty => blank

/-- A statement, unless the evaluation was interrupted. -/
def stmt (st : Stmt) : Journal :=
  unlessInterrupted (after (Eval.emitIf ctx.trace (.statement st.kind.name st.span)) fun _ =>
    stmtKind ctx ev js st.span st.kind)

/-- Statements in a block of their own. -/
def block (body : List Stmt) : Journal := inBlock (stmts ev js body)

end Journal

namespace Journals.Kept

open Eval (Executes)

variable {ctx : Context} {ev : Evaluator} {js : Journals}

/-! ## Rules for loops -/

theorem whileTrue (h : js.Kept ev) (test : Expr) {continuing : Eval Eval.Round} {j : Journal}
    (hc : continuing.Executes .statement j) :
    (Rule.whileTrue ev test continuing).Executes .statement (.whileTrue ev js test j) :=
  (h.expr test).ofExpression.bind fun _ => .ite hc (.pure _)

theorem loopBody (h : js.Kept ev) (body : Stmt) :
    (Rule.loopBody ev body).Executes .statement (js.stmt body) :=
  (h.stmt body).bind_blank fun _ => .pure _

theorem bodyThen (h : js.Kept ev) (body : Stmt) {continuing : Eval Eval.Round} {j : Journal}
    (hc : continuing.Executes .statement j) :
    (Rule.bodyThen ev body continuing).Executes .statement (.bodyThen ev js body j) := by
  refine (h.loopBody body).bind fun round => ?_
  cases round with
  | again => exact hc
  | finish completion => exact .pure _

theorem whileLoop (h : js.Kept ev) (test : Expr) (body : Stmt) :
    (Rule.whileLoop ev test body).Executes .statement (.whileLoop ev js test body) :=
  (Executes.checkInterrupt.bind fun _ => h.whileTrue test (h.loopBody body)).repeating ev.rounds

theorem doWhile (h : js.Kept ev) (body : Stmt) (test : Expr) :
    (Rule.doWhile ev body test).Executes .statement (.doWhile ev js body test) := by
  have htest : (Rule.whileTrue ev test (pure .again)).Executes .statement (js.expr test) :=
    (h.expr test).ofExpression.bind_blank fun v => by split <;> exact .pure _
  exact (Executes.checkInterrupt.bind fun _ => h.bodyThen body htest).repeating ev.rounds

theorem forUpdate (h : js.Kept ev) (update : Option Expr) :
    (Rule.forUpdate ev update).Executes .statement (.optional js update) := by
  cases update with
  | none => exact .pure _
  | some e => exact (h.expr e).ofExpression.bind_blank fun _ => .pure _

theorem forRound (h : js.Kept ev) (test update : Option Expr) (body : Stmt) :
    (Rule.forRound ev test update body).Executes .statement (.forRound ev js test update body) := by
  have hbody := h.bodyThen body (h.forUpdate update)
  refine Executes.checkInterrupt.bind fun _ => ?_
  cases test with
  | none => exact hbody
  | some test => exact h.whileTrue test hbody

theorem forLoop (h : js.Kept ev) (init : Option Stmt) (test update : Option Expr) (body : Stmt) :
    (Rule.forLoop ev init test update body).Executes .statement
      (.forLoop ev js init test update body) := by
  have hloop := (h.forRound test update body).repeating ev.rounds
  refine .inBlock (.ofStatement ?_)
  cases init with
  | none => exact hloop
  | some init => exact (h.stmt init).bind fun _ => hloop

theorem bindItem (binding : LoopBinding) (item : Value) :
    (Rule.bindItem binding item).Executes .owner (.bindItem binding item) := by
  unfold Rule.bindItem Journal.bindItem
  cases binding.kind with
  | some kind => exact .setLocal binding.name item
  | none => exact (Executes.assignVariable binding.name item).ofExpression.ofStatement

theorem itemRound (h : js.Kept ev) (binding : LoopBinding) (body : Stmt) (item : Value) :
    (Rule.itemRound ev binding body item).Executes .owner (.itemRound js binding body item) := by
  refine Executes.checkInterrupt.bind fun _ => (bindItem binding item).bind fun _ => ?_
  exact (h.loopBody body).ofStatement

theorem iterate (h : js.Kept ev) (binding : LoopBinding) (items : List Value) (body : Stmt) :
    (Rule.iterate ev binding items body).Executes .statement
      (.iterate ev js binding items body) := by
  have hloop := Executes.forEach (h.itemRound binding body) items
  refine .inBlock ?_
  cases binding.kind with
  | some kind => exact (Executes.define _ _ _).bind fun _ => hloop
  | none => exact hloop

theorem forIn (h : js.Kept ev) (binding : LoopBinding) (object : Expr) (body : Stmt) :
    (Rule.forIn ctx ev binding object body).Executes .statement
      (.forIn ctx ev js binding object body) := by
  refine (h.expr object).ofExpression.bind fun v => Executes.store.bind fun st => ?_
  exact h.iterate binding _ body

theorem forOf (h : js.Kept ev) (binding : LoopBinding) (iterable : Expr) (body : Stmt) :
    (Rule.forOf ctx ev binding iterable body).Executes .statement
      (.forOf ctx ev js binding iterable body) := by
  refine (h.expr iterable).ofExpression.bind fun v => Executes.store.bind fun st => ?_
  exact (Executes.ofExcept _).bind fun items => h.iterate binding items body

/-! ## Rules for statements -/

theorem initial (h : js.Kept ev) (init : Option Expr) :
    (Rule.initial ev init).Executes .expression (.optional js init) := by
  cases init with
  | none => exact .pure _
  | some e => exact h.expr e

/-- The declarators of a declaration, by induction on those that are left. -/
theorem declarators (h : js.Kept ev) (mode : Mode) (span : Span)
    (ds : List (String × Option Expr)) :
    (Rule.declare ev mode span ds).Executes .statement (.declare ev js mode span ds) := by
  induction ds with
  | nil => exact .pure _
  | cons d ds ih =>
    refine (h.initial d.2).ofExpression.bind fun v => ?_
    exact ((Executes.declare mode d.1 v (some span)).mapError _).bind fun _ => ih

theorem declareFunction (span : Span) (name : Option String) (params : List String)
    (body : List Stmt) :
    (Rule.declareFunction ctx span name params body).Executes .statement .blank := by
  cases name with
  | none => exact .fail _
  | some f =>
    have hf : (Rule.function (some f) params body).Executes .statement .blank :=
      .of_still fun _ => .ok ⟨rfl, rfl⟩
    refine hf.bind_blank fun v => ?_
    refine (Executes.declare .function f v (some span)).bind_blank fun _ => ?_
    exact (Executes.emitIf ctx.trace fun _ => .declared f params.length).bind_blank fun _ => .pure _

theorem ifElse (h : js.Kept ev) (test : Expr) (consequent : Stmt) (alternate : Option Stmt) :
    (Rule.ifElse ev test consequent alternate).Executes .statement
      (.ifElse ev js test consequent alternate) := by
  refine (h.expr test).ofExpression.bind fun v => .ite (h.stmt consequent) ?_
  cases alternate with
  | none => exact .pure _
  | some st => exact h.stmt st

theorem whenGuard (h : js.Kept ev) (span : Span) (test : Expr) (body : List Stmt) :
    (Rule.whenGuard ev test body).Executes .statement
      (.stmtKind ctx ev js span (.whenGuard test body)) :=
  (h.expr test).ofExpression.bind fun _ => .ite (h.block body) (.pure _)

theorem fallThrough (h : js.Kept ev) (cases : List (Option Expr × List Stmt)) :
    (Rule.fallThrough ev cases).Executes .statement (.fallThrough ev js cases) := by
  induction cases with
  | nil => exact .pure _
  | cons c cases ih =>
    refine (h.stmts c.2).bind fun completion => ?_
    cases completion with
    | normal v => exact ih
    | broke | continued | returned => exact .pure _

theorem chooseCase (h : js.Kept ev) (v : Value) (cases : List (Option Expr × List Stmt)) :
    (Rule.chooseCase ev v cases).Executes .statement (.chooseCase ev js v cases) := by
  induction cases with
  | nil => exact .pure _
  | cons c cases ih =>
    obtain ⟨test, body⟩ := c
    cases test with
    | none => exact h.fallThrough ((none, body) :: cases)
    | some test =>
      refine (h.expr test).ofExpression.bind fun t => ?_
      exact .ite (h.fallThrough ((some test, body) :: cases)) ih

theorem switch (h : js.Kept ev) (discriminant : Expr) (cases : List (Option Expr × List Stmt)) :
    (Rule.switch ev discriminant cases).Executes .statement
      (.switch ev js discriminant cases) :=
  (h.expr discriminant).ofExpression.bind fun v => .inBlock (h.chooseCase v cases).ofStatement

theorem catchClause (h : js.Kept ev) (param : Option String) (body : List Stmt) (thrown : Value) :
    (Rule.catchClause ev param body thrown).Executes .statement
      (.catchClause ev js param body thrown) := by
  have hbody := (h.stmts body).ofStatement
  refine .inBlock ?_
  cases param with
  | none => exact hbody
  | some name => exact (Executes.define name thrown .blockMutable).bind fun _ => hbody

theorem handled (h : js.Kept ev) (result : Except Failure Completion)
    (handler : Option (Option String × List Stmt)) :
    (Rule.handled ev result handler).Executes .statement (.handled ev js result handler) := by
  cases handler with
  | none => exact .pure _
  | some clause =>
    cases result with
    | ok completion => exact .pure _
    | error failure =>
      refine .ite ((Executes.emit _).bind fun _ => ?_) (.pure _)
      exact (h.catchClause clause.1 clause.2 failure.thrownValue).attempt

theorem finalized (h : js.Kept ev) (blockFailed : Bool) (outcome : Except Failure Completion)
    (finalizer : Option (List Stmt)) :
    (Rule.finalized ev blockFailed outcome finalizer).Executes .statement
      (.finalized js finalizer) := by
  cases finalizer with
  | none => exact .ofResult outcome
  | some body =>
    refine (h.block body).attempt.bind_blank fun result => ?_
    cases result with
    | ok completion =>
      dsimp only
      split
      · exact .pure _
      · exact .ofResult outcome
    | error failure =>
      dsimp only
      split
      · exact (Executes.emit _).bind_blank fun _ => .ofResult outcome
      · exact .fail failure

theorem tryCatch (h : js.Kept ev) (block : List Stmt)
    (handler : Option (Option String × List Stmt)) (finalizer : Option (List Stmt)) :
    (Rule.tryCatch ev block handler finalizer).Executes .statement
      (.tryCatch ev js block handler finalizer) := by
  refine (h.block block).attempt.bind fun result => ?_
  refine (h.handled result handler).bind fun outcome => ?_
  exact h.finalized (Rule.isFailure result) outcome finalizer

theorem observe (h : js.Kept ev) (targets : List String) (handler : Expr) :
    (Rule.observe ev targets handler).Executes .statement (js.expr handler) := by
  refine (h.expr handler).ofExpression.bind_blank fun v => ?_
  have hregister : (Eval.tryEnv (Rule.register targets v)).Executes .expression .blank :=
    .tryEnv fun _ _ hok => .register hok
  split
  · exact hregister.ofExpression.bind_blank fun _ => (Executes.emit _).bind_blank fun _ => .pure _
  · exact .raise _

theorem exported (h : js.Kept ev) (st : Stmt) :
    (Rule.exported ev st).Executes .statement (js.stmt st) :=
  (h.stmt st).bind_blank fun _ => .of_still fun _ => .ok ⟨rfl, rfl⟩

theorem stmtKind (h : js.Kept ev) (span : Span) (kind : StmtKind) :
    (Rule.stmtKind ctx ev span kind).Executes .statement (.stmtKind ctx ev js span kind) := by
  cases kind with
  | expression e => exact (h.expr e).ofExpression.bind_blank fun _ => .pure _
  | declare kind ds => exact h.declarators kind.mode span ds
  | function name params body => exact declareFunction span name params body
  | block body => exact h.block body
  | ifElse test consequent alternate => exact h.ifElse test consequent alternate
  | whileLoop test body => exact h.whileLoop test body
  | doWhile body test => exact h.doWhile body test
  | forLoop init test update body => exact h.forLoop init test update body
  | forIn binding object body => exact h.forIn binding object body
  | forOf binding iterable body => exact h.forOf binding iterable body
  | switch discriminant cases => exact h.switch discriminant cases
  | tryCatch block handler finalizer => exact h.tryCatch block handler finalizer
  | throw e =>
    exact (h.expr e).ofExpression.bind_blank fun _ => Executes.store.bind_blank fun _ => .fail _
  | ret e => exact (h.initial e).ofExpression.bind_blank fun _ => .pure _
  | breakLoop => exact .pure _
  | continueLoop => exact .pure _
  | whenGuard test body => exact h.whenGuard span test body
  | otherwise body => exact h.block body
  | observe targets handler => exact h.observe targets handler
  | importNames specifiers source =>
    exact (loadModule source).bind_blank fun exports => bindImports span source exports specifiers
  | exported st => exact h.exported st
  | empty => exact .pure _

theorem stmtRule (h : js.Kept ev) (st : Stmt) :
    (Rule.stmt ctx ev st).Executes .statement (.stmt ctx ev js st) := by
  refine .unlessInterrupted (.locating st.span ?_)
  refine (Executes.emitIf ctx.trace fun _ => .statement st.kind.name st.span).bind fun _ => ?_
  exact h.stmtKind st.span st.kind

theorem blockRule (h : js.Kept ev) (body : List Stmt) :
    (Rule.block ev body).Executes .statement (.block ev js body) :=
  .inBlock (h.stmts body).ofStatement

end Journals.Kept

/-! ## Levels -/

namespace Journals

/-- The journals of the evaluator that applies the rules once. -/
def next (ctx : Context) (ev : Evaluator) (js : Journals) : Journals where
  expr := Journal.expr ctx ev js
  stmt := Journal.stmt ctx ev js
  block := Journal.block ev js
  call := Journal.call ctx ev js

/-- The journals of the evaluator of a level. -/
def level (ctx : Context) : Nat → Journals
  | 0 => blank
  | n + 1 => next ctx (Evaluator.level ctx n) (level ctx n)

/-- An evaluator executes the assignments in the journals of its level. -/
theorem kept_level (ctx : Context) (n : Nat) : (level ctx n).Kept (Evaluator.level ctx n) := by
  induction n with
  | zero => exact ⟨fun _ => .stop, fun _ => .stop, fun _ => .stop, fun _ _ _ => .stop⟩
  | succ n ih =>
    rw [Evaluator.level_succ]
    exact ⟨ih.exprRule, ih.stmtRule, ih.blockRule, ih.callRule⟩

end Journals

end ReactiveScript
