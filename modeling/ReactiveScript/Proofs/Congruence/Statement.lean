import ReactiveScript.Eval.Fuel
import ReactiveScript.Proofs.Congruence.Expression

/-!
# Congruence of statements

The rules for loops and statements, one lemma for each, and from all rules together
`Congruence.level`: evaluators of the same level are related.
-/

namespace ReactiveScript

namespace Congruence

variable {ctx : Context} {trace : Bool} {R : Reach → {α : Type} → Eval α → Eval α → Prop}
  {hosted : (Store → Reply) → Prop} {ev ev' : Evaluator} {r : Reach}

/-! ## Loops -/

theorem whileTrue (hR : Congruence ctx.trace trace R hosted) (h : ev.Related R ev') (test : Expr)
    {continuing continuing' : Eval Eval.Round} (hc : R .statement continuing continuing') :
    R .statement (Rule.whileTrue ev test continuing) (Rule.whileTrue ev' test continuing') := by
  refine hR.bind (hR.ofExpression (h.expr test)) fun v => ?_
  split
  · exact hc
  · exact hR.pure _

theorem loopBody (hR : Congruence ctx.trace trace R hosted) (h : ev.Related R ev') (body : Stmt) :
    R .statement (Rule.loopBody ev body) (Rule.loopBody ev' body) :=
  hR.bind (h.stmt body) fun _ => hR.pure _

theorem bodyThen (hR : Congruence ctx.trace trace R hosted) (h : ev.Related R ev') (body : Stmt)
    {continuing continuing' : Eval Eval.Round} (hc : R .statement continuing continuing') :
    R .statement (Rule.bodyThen ev body continuing) (Rule.bodyThen ev' body continuing') := by
  refine hR.bind (hR.loopBody h body) fun round => ?_
  cases round with
  | again => exact hc
  | finish completion => exact hR.pure _

theorem whileLoop (hR : Congruence ctx.trace trace R hosted) (h : ev.Related R ev') (test : Expr)
    (body : Stmt) :
    R .statement (Rule.whileLoop ev test body) (Rule.whileLoop ev' test body) := by
  refine h.repeating (hR.bind hR.checkInterrupt fun _ => ?_)
  exact hR.whileTrue h test (hR.loopBody h body)

theorem doWhile (hR : Congruence ctx.trace trace R hosted) (h : ev.Related R ev') (body : Stmt)
    (test : Expr) : R .statement (Rule.doWhile ev body test) (Rule.doWhile ev' body test) := by
  refine h.repeating (hR.bind hR.checkInterrupt fun _ => ?_)
  exact hR.bodyThen h body (hR.whileTrue h test (hR.pure _))

theorem forUpdate (hR : Congruence ctx.trace trace R hosted) (h : ev.Related R ev')
    (update : Option Expr) :
    R .statement (Rule.forUpdate ev update) (Rule.forUpdate ev' update) := by
  cases update with
  | none => exact hR.pure _
  | some e => exact hR.bind (hR.ofExpression (h.expr e)) fun _ => hR.pure _

theorem forRound (hR : Congruence ctx.trace trace R hosted) (h : ev.Related R ev')
    (test update : Option Expr) (body : Stmt) :
    R .statement (Rule.forRound ev test update body) (Rule.forRound ev' test update body) := by
  have hbody := hR.bodyThen h body (hR.forUpdate h update)
  refine hR.bind hR.checkInterrupt fun _ => ?_
  cases test with
  | none => exact hbody
  | some test => exact hR.whileTrue h test hbody

theorem forLoop (hR : Congruence ctx.trace trace R hosted) (h : ev.Related R ev')
    (init : Option Stmt) (test update : Option Expr) (body : Stmt) :
    R .statement (Rule.forLoop ev init test update body)
      (Rule.forLoop ev' init test update body) := by
  have hloop := h.repeating (hR.forRound h test update body)
  refine hR.inBlock (hR.ofStatement ?_)
  cases init with
  | none => exact hloop
  | some init => exact hR.bind (h.stmt init) fun _ => hloop

/-- Giving an item to the variable of a loop is the one place where a loop sets a variable that may
be a constant, which is why it stands in a scope of the loop's own. -/
theorem bindItem (hR : Congruence ctx.trace trace R hosted) (binding : LoopBinding) (item : Value) :
    R .owner (Rule.bindItem binding item) (Rule.bindItem binding item) := by
  unfold Rule.bindItem
  split
  · exact hR.setLocal _ _
  · exact hR.ofStatement (hR.ofExpression (hR.assignVariable _ _))

theorem itemRound (hR : Congruence ctx.trace trace R hosted) (h : ev.Related R ev')
    (binding : LoopBinding) (body : Stmt) (item : Value) :
    R .owner (Rule.itemRound ev binding body item) (Rule.itemRound ev' binding body item) := by
  refine hR.bind hR.checkInterrupt fun _ => ?_
  refine hR.bind (hR.bindItem binding item) fun _ => ?_
  exact hR.ofStatement (hR.loopBody h body)

theorem iterate (hR : Congruence ctx.trace trace R hosted) (h : ev.Related R ev')
    (binding : LoopBinding) (items : List Value) (body : Stmt) :
    R .statement (Rule.iterate ev binding items body)
      (Rule.iterate ev' binding items body) := by
  have hloop := hR.forEach (hR.itemRound h binding body) items
  refine hR.inBlock ?_
  split
  · exact hR.bind (hR.define _ _ _) fun _ => hloop
  · exact hloop

theorem forIn (hR : Congruence ctx.trace trace R hosted) (h : ev.Related R ev')
    (binding : LoopBinding) (object : Expr) (body : Stmt) :
    R .statement (Rule.forIn ctx ev binding object body)
      (Rule.forIn (ctx.tracing trace) ev' binding object body) := by
  refine hR.bind (hR.ofExpression (h.expr object)) fun v => ?_
  exact hR.bind hR.store fun st => hR.iterate h binding _ body

theorem forOf (hR : Congruence ctx.trace trace R hosted) (h : ev.Related R ev')
    (binding : LoopBinding) (iterable : Expr) (body : Stmt) :
    R .statement (Rule.forOf ctx ev binding iterable body)
      (Rule.forOf (ctx.tracing trace) ev' binding iterable body) := by
  refine hR.bind (hR.ofExpression (h.expr iterable)) fun v => ?_
  refine hR.bind hR.store fun st => ?_
  exact hR.bind (hR.ofExcept _) fun items => hR.iterate h binding items body

/-! ## Statements -/

theorem initial (hR : Congruence ctx.trace trace R hosted) (h : ev.Related R ev')
    (init : Option Expr) : R .expression (Rule.initial ev init) (Rule.initial ev' init) := by
  cases init with
  | none => exact hR.pure _
  | some e => exact h.expr e

/-- The declarators of a declaration, by induction on those that are left. -/
theorem declarators (hR : Congruence ctx.trace trace R hosted) (h : ev.Related R ev') (mode : Mode)
    (span : Span) (ds : List (String × Option Expr)) :
    R .statement (Rule.declare ev mode span ds) (Rule.declare ev' mode span ds) := by
  induction ds with
  | nil => exact hR.pure _
  | cons d ds ih =>
    refine hR.bind (hR.ofExpression (hR.initial h d.2)) fun v => ?_
    exact hR.bind (hR.mapError _ (hR.declare mode d.1 v (some span))) fun _ => ih

theorem declareFunction (hR : Congruence ctx.trace trace R hosted) (span : Span)
    (name : Option String) (params : List String) (body : List Stmt) :
    R .statement (Rule.declareFunction ctx span name params body)
      (Rule.declareFunction (ctx.tracing trace) span name params body) := by
  cases name with
  | none => exact hR.fail _
  | some f =>
    refine hR.bind (hR.ofExpression (hR.function (some f) params body)) fun v => ?_
    refine hR.bind (hR.declare .function f v (some span)) fun _ => ?_
    exact hR.bind (hR.emitIf (fun _ => .declared f params.length) fun _ => rfl) fun _ => hR.pure _

theorem ifElse (hR : Congruence ctx.trace trace R hosted) (h : ev.Related R ev') (test : Expr)
    (consequent : Stmt) (alternate : Option Stmt) :
    R .statement (Rule.ifElse ev test consequent alternate)
      (Rule.ifElse ev' test consequent alternate) := by
  refine hR.bind (hR.ofExpression (h.expr test)) fun v => ?_
  split
  · exact h.stmt consequent
  · cases alternate with
    | none => exact hR.pure _
    | some st => exact h.stmt st

theorem whenGuard (hR : Congruence ctx.trace trace R hosted) (h : ev.Related R ev') (test : Expr)
    (body : List Stmt) :
    R .statement (Rule.whenGuard ev test body) (Rule.whenGuard ev' test body) := by
  refine hR.bind (hR.ofExpression (h.expr test)) fun v => ?_
  split
  · exact h.block body
  · exact hR.pure _

theorem fallThrough (hR : Congruence ctx.trace trace R hosted) (h : ev.Related R ev')
    (cases : List (Option Expr × List Stmt)) :
    R .statement (Rule.fallThrough ev cases) (Rule.fallThrough ev' cases) := by
  induction cases with
  | nil => exact hR.pure _
  | cons c cases ih =>
    refine hR.bind (hR.stmts h c.2) fun completion => ?_
    cases completion with
    | normal v => exact ih
    | broke => exact hR.pure _
    | continued => exact hR.pure _
    | returned v => exact hR.pure _

theorem chooseCase (hR : Congruence ctx.trace trace R hosted) (h : ev.Related R ev') (v : Value)
    (cases : List (Option Expr × List Stmt)) :
    R .statement (Rule.chooseCase ev v cases) (Rule.chooseCase ev' v cases) := by
  induction cases with
  | nil => exact hR.pure _
  | cons c cases ih =>
    obtain ⟨test, body⟩ := c
    cases test with
    | none => exact hR.fallThrough h ((none, body) :: cases)
    | some test =>
      refine hR.bind (hR.ofExpression (h.expr test)) fun t => ?_
      split
      · exact hR.fallThrough h ((some test, body) :: cases)
      · exact ih

theorem switch (hR : Congruence ctx.trace trace R hosted) (h : ev.Related R ev')
    (discriminant : Expr) (cases : List (Option Expr × List Stmt)) :
    R .statement (Rule.switch ev discriminant cases)
      (Rule.switch ev' discriminant cases) := by
  refine hR.bind (hR.ofExpression (h.expr discriminant)) fun v => ?_
  exact hR.inBlock (hR.ofStatement (hR.chooseCase h v cases))

theorem catchClause (hR : Congruence ctx.trace trace R hosted) (h : ev.Related R ev')
    (param : Option String) (body : List Stmt) (thrown : Value) :
    R .statement (Rule.catchClause ev param body thrown)
      (Rule.catchClause ev' param body thrown) := by
  have hbody := hR.ofStatement (hR.stmts h body)
  refine hR.inBlock ?_
  cases param with
  | none => exact hbody
  | some name => exact hR.bind (hR.define name thrown .blockMutable) fun _ => hbody

theorem handled (hR : Congruence ctx.trace trace R hosted) (h : ev.Related R ev')
    (result : Except Failure Completion) (handler : Option (Option String × List Stmt)) :
    R .statement (Rule.handled ev result handler) (Rule.handled ev' result handler) := by
  cases handler with
  | none => exact hR.pure _
  | some clause =>
    cases result with
    | ok completion => exact hR.pure _
    | error failure =>
      simp only [Rule.handled]
      split
      · refine hR.bind (hR.emit _) fun _ => ?_
        exact hR.attempt (hR.catchClause h clause.1 clause.2 failure.thrownValue)
      · exact hR.pure _

theorem finalized (hR : Congruence ctx.trace trace R hosted) (h : ev.Related R ev')
    (blockFailed : Bool) (outcome : Except Failure Completion)
    (finalizer : Option (List Stmt)) :
    R .statement (Rule.finalized ev blockFailed outcome finalizer)
      (Rule.finalized ev' blockFailed outcome finalizer) := by
  cases finalizer with
  | none => exact hR.ofResult outcome
  | some body =>
    refine hR.bind (hR.attempt (h.block body)) fun result => ?_
    cases result with
    | ok completion =>
      dsimp only
      split
      · exact hR.pure _
      · exact hR.ofResult outcome
    | error failure =>
      dsimp only
      split
      · exact hR.bind (hR.emit _) fun _ => hR.ofResult outcome
      · exact hR.fail failure

theorem tryCatch (hR : Congruence ctx.trace trace R hosted) (h : ev.Related R ev')
    (block : List Stmt) (handler : Option (Option String × List Stmt))
    (finalizer : Option (List Stmt)) :
    R .statement (Rule.tryCatch ev block handler finalizer)
      (Rule.tryCatch ev' block handler finalizer) := by
  refine hR.bind (hR.attempt (h.block block)) fun result => ?_
  refine hR.bind (hR.handled h result handler) fun outcome => ?_
  exact hR.finalized h (Rule.isFailure result) outcome finalizer

theorem throwValue (hR : Congruence ctx.trace trace R hosted) (h : ev.Related R ev') (span : Span)
    (e : Expr) : R .statement (Rule.throwValue ev span e) (Rule.throwValue ev' span e) := by
  refine hR.bind (hR.ofExpression (h.expr e)) fun v => ?_
  exact hR.bind hR.store fun st => hR.fail _

theorem observe (hR : Congruence ctx.trace trace R hosted) (h : ev.Related R ev')
    (targets : List String) (handler : Expr) :
    R .statement (Rule.observe ev targets handler) (Rule.observe ev' targets handler) := by
  refine hR.bind (hR.ofExpression (h.expr handler)) fun v => ?_
  split
  · refine hR.bind (hR.ofExpression (hR.register targets v)) fun _ => ?_
    exact hR.bind (hR.emit _) fun _ => hR.pure _
  · exact hR.raise _

theorem ret (hR : Congruence ctx.trace trace R hosted) (h : ev.Related R ev') (e : Option Expr) :
    R .statement (Rule.ret ev e) (Rule.ret ev' e) :=
  hR.bind (hR.ofExpression (hR.initial h e)) fun _ => hR.pure _

theorem expression (hR : Congruence ctx.trace trace R hosted) (h : ev.Related R ev') (e : Expr) :
    R .statement (Rule.expression ev e) (Rule.expression ev' e) :=
  hR.bind (hR.ofExpression (h.expr e)) fun _ => hR.pure _

theorem stmtKind (hR : Congruence ctx.trace trace R hosted) (h : ev.Related R ev') (span : Span)
    (kind : StmtKind) :
    R .statement (Rule.stmtKind ctx ev span kind)
      (Rule.stmtKind (ctx.tracing trace) ev' span kind) := by
  cases kind with
  | expression e => exact hR.expression h e
  | declare kind ds => exact hR.declarators h kind.mode span ds
  | function name params body => exact hR.declareFunction span name params body
  | block body => exact h.block body
  | ifElse test consequent alternate => exact hR.ifElse h test consequent alternate
  | whileLoop test body => exact hR.whileLoop h test body
  | doWhile body test => exact hR.doWhile h body test
  | forLoop init test update body => exact hR.forLoop h init test update body
  | forIn binding object body => exact hR.forIn h binding object body
  | forOf binding iterable body => exact hR.forOf h binding iterable body
  | switch discriminant cases => exact hR.switch h discriminant cases
  | tryCatch block handler finalizer => exact hR.tryCatch h block handler finalizer
  | throw e => exact hR.throwValue h span e
  | ret e => exact hR.ret h e
  | breakLoop => exact hR.pure _
  | continueLoop => exact hR.pure _
  | whenGuard test body => exact hR.whenGuard h test body
  | otherwise body => exact h.block body
  | observe targets handler => exact hR.observe h targets handler
  | importNames specifiers source => exact hR.importNames span specifiers source
  | exported st => exact hR.exported h st
  | empty => exact hR.pure _

theorem stmt (hR : Congruence ctx.trace trace R hosted) (h : ev.Related R ev') (st : Stmt) :
    R .statement (Rule.stmt ctx ev st) (Rule.stmt (ctx.tracing trace) ev' st) := by
  refine hR.unlessInterrupted (hR.locating st.span ?_)
  refine hR.bind (hR.emitIf (fun _ => .statement st.kind.name st.span) fun _ => rfl) fun _ => ?_
  exact hR.stmtKind h st.span st.kind

theorem block (hR : Congruence ctx.trace trace R hosted) (h : ev.Related R ev') (body : List Stmt) :
    R .statement (Rule.block ev body) (Rule.block ev' body) :=
  hR.inBlock (hR.ofStatement (hR.stmts h body))

/-! ## Levels -/

/-- Applying the rules once to related evaluators gives related evaluators. -/
theorem next [ctx.library.Within hosted] (hR : Congruence ctx.trace trace R hosted)
    (h : ev.Related R ev') :
    (Evaluator.next ctx ev).Related R (Evaluator.next (ctx.tracing trace) ev') where
  expr := hR.expr h
  stmt := hR.stmt h
  block := hR.block h
  call := hR.call h
  repeating := by
    intro r round round' hround
    show R r (Eval.repeating round (ev.rounds + 1)) (Eval.repeating round' (ev'.rounds + 1))
    rw [Eval.repeating_succ, Eval.repeating_succ]
    exact hR.bind hround fun next => hR.continuing (h.repeating hround) next

theorem empty (hR : Congruence ctx.trace trace R hosted) :
    Evaluator.empty.Related R Evaluator.empty where
  expr _ := hR.stop
  stmt _ := hR.stop
  block _ := hR.stop
  call _ _ _ := hR.stop
  repeating _ := hR.stop

/-- Evaluators of the same level are related. -/
theorem level [ctx.library.Within hosted] (hR : Congruence ctx.trace trace R hosted) (n : Nat) :
    (Evaluator.level ctx n).Related R (Evaluator.level (ctx.tracing trace) n) := by
  induction n with
  | zero => exact hR.empty
  | succ n ih =>
    rw [Evaluator.level_succ, Evaluator.level_succ]
    exact hR.next ih

end Congruence

end ReactiveScript
