import ReactiveScript.Proofs.Privacy.Basic

/-!
# Evaluation of private phrases

The rules, one lemma for each: the evaluation of a private phrase is private if that of its parts
is. A call needs no condition, since its function is one of the store.
-/

namespace ReactiveScript

open Eval (Private)

/-- An evaluator whose evaluations of private phrases are private, and so are all its calls. -/
structure Evaluator.Private (ev : Evaluator) : Prop where
  expr {e : Expr} : e.isPrivate = true → (ev.expr e).Private
  stmt {st : Stmt} : st.isPrivate = true → (ev.stmt st).Private
  block {body : List Stmt} : Stmt.arePrivate body = true → (ev.block body).Private
  call (f : Value) (args : List Value) (receiver : Option Value) :
    (ev.call f args receiver).Private

/-! ## Rules without parts -/

namespace Rule

variable (ctx : Context)

theorem private_ident (name : String) : (ident ctx name).Private := by
  rw [ident_eq]
  exact .reading (fun s => lookup? ctx s.env name) fun v =>
    .ofExcept (v.elim (.error (.unknownIdentifier name)) .ok)

/-- Notifications are queued, and what they are told is stored in records. -/
theorem notify_keeps (m : Mutation) (s : State) :
    (notify m s).exports = s.exports ∧ (notify m s).store.functions = s.store.functions := by
  unfold notify
  refine List.foldlRecOn (motive := fun s' : State =>
    s'.exports = s.exports ∧ s'.store.functions = s.store.functions) _ _ ?_ fun _ h _ _ => h
  exact List.foldlRecOn (motive := fun s' : State =>
    s'.exports = s.exports ∧ s'.store.functions = s.store.functions) _ _ ⟨rfl, rfl⟩
    fun _ h _ _ => h

theorem private_assignVariable (name : String) (v : Value) : (assignVariable name v).Private := by
  refine .of_same fun s => ?_
  unfold assignVariable
  split
  · exact .error ⟨rfl, rfl⟩
  · exact .ok ⟨rfl, rfl⟩
  · exact .ok (notify_keeps _ _)

theorem private_readMember (object : Value) (property : String) :
    (readMember ctx object property).Private :=
  .reading (fun s => s.store) fun st => .ofExcept (Value.getMember ctx.library st object property)

theorem private_readIndex (object key : Value) : (readIndex ctx object key).Private :=
  .reading (fun s => s.store) fun st => .ofExcept (Value.getIndex ctx.library st object key)

theorem private_update (op : UpdateOp) (first : Bool) (target : Expr) :
    (update ctx op first target).Private := by
  unfold update
  split
  · rename_i name _
    refine (private_ident ctx name).bind fun old => ?_
    split
    · exact (private_assignVariable name _).bind fun _ => .pure _
    · exact .raise _
  · exact .raise _

theorem private_loadModule (path : String) : (loadModule ctx path).Private := by
  unfold loadModule
  split
  · exact .raise _
  · refine (Private.emit _).bind fun _ => ?_
    split
    · exact .pure _
    · exact .raise _

theorem private_namespaceOf (exports : Exports) : (namespaceOf exports).Private :=
  .allocate fun _ h => h.of_functions rfl

theorem private_importValue (source : String) (exports : Exports) (specifier : ImportSpecifier) :
    (importValue source exports specifier).Private := by
  cases specifier with
  | named imported localName =>
    simp only [importValue]
    split
    · exact .pure _
    · exact .raise _
  | everything localName => exact private_namespaceOf exports

theorem private_bindImports (span : Span) (source : String) (exports : Exports)
    (specifiers : List ImportSpecifier) : (bindImports span source exports specifiers).Private := by
  induction specifiers with
  | nil => exact .pure _
  | cons specifier specifiers ih =>
    refine (private_importValue source exports specifier).bind fun v => ?_
    exact (Private.tryEnv _).bind fun _ => ih

theorem private_importNames (span : Span) (specifiers : List ImportSpecifier) (source : String) :
    (importNames ctx span specifiers source).Private :=
  (private_loadModule ctx source).bind fun exports => private_bindImports span source exports _

theorem private_callResult (completion : Completion) : (callResult completion).Private := by
  unfold callResult
  split
  · exact .raise _
  · split <;> exact .pure _

theorem private_callBuiltin (hlibrary : ctx.library.Private) (ref : Ref) (args : List Value) :
    (callBuiltin ctx ref args).Private := by
  rw [callBuiltin_eq]
  refine Private.store.bind fun st => ?_
  split
  · split
    · exact .hostCall _ fun _ => hlibrary.builtin _ args
    · exact .raise _
  · exact .hostCall _ fun _ => hlibrary.builtin _ args

theorem private_callMethod (hlibrary : ctx.library.Private) (ref : Ref) (method : String)
    (args : List Value) : (callMethod ctx ref method args).Private :=
  fun s => Private.hostCall _ (fun _ => hlibrary.invoke ref method args) s

theorem private_function (name : Option String) (params : List String) {body : List Stmt}
    (hbody : Stmt.arePrivate body = true) : (function name params body).Private := by
  have hnew : ∀ closure : Closure,
      (Eval.allocate (·.newFunction ⟨name, params, body, closure⟩)).Private :=
    fun _ => .allocate fun _ h => h.newFunction hbody
  exact .reading (fun s => s.env.capture) hnew

theorem private_declareFunction (span : Span) (name : Option String) (params : List String)
    {body : List Stmt} (hbody : Stmt.arePrivate body = true) :
    (declareFunction ctx span name params body).Private := by
  cases name with
  | none => exact .fail _
  | some f =>
    refine (private_function (some f) params hbody).bind fun v => ?_
    refine (Private.tryEnv _).bind fun _ => ?_
    exact (Private.emitIf _ _).bind fun _ => .pure _

end Rule

namespace Evaluator.Private

variable {ctx : Context} {ev : Evaluator}

/-! ## Lists of phrases -/

theorem exprs (h : ev.Private) {es : List Expr} (hes : Expr.arePrivate es = true) :
    (ev.exprs es).Private := by
  induction es with
  | nil => exact .pure _
  | cons e es ih =>
    rw [Expr.arePrivate, Bool.and_eq_true] at hes
    exact (h.expr hes.1).bind fun v => (ih hes.2).bind fun vs => .pure _

theorem entries (h : ev.Private) {es : List (String × Expr)}
    (hes : Expr.entriesPrivate es = true) : (ev.entries es).Private := by
  induction es with
  | nil => exact .pure _
  | cons e es ih =>
    rw [Expr.entriesPrivate, Bool.and_eq_true] at hes
    exact (h.expr hes.1).bind fun v => (ih hes.2).bind fun vs => .pure _

theorem step (h : ev.Private) (last : Value) {st : Stmt} (hst : st.isPrivate = true) :
    (ev.step last st).Private := by
  unfold Evaluator.step
  split
  · rename_i span test body
    rw [Stmt.isPrivate, StmtKind.isPrivate, Bool.and_eq_true] at hst
    refine Eval.Private.checkInterrupt.bind fun _ => ?_
    refine ((h.expr hst.1).locating span).bind fun guard => ?_
    split
    · exact (h.block hst.2).bind fun _ => .pure _
    · exact .pure _
  · refine (h.stmt hst).bind fun completion => ?_
    split <;> exact .pure _

theorem stmtsFrom (h : ev.Private) (last : Value) {body : List Stmt}
    (hbody : Stmt.arePrivate body = true) : (ev.stmtsFrom last body).Private := by
  induction body generalizing last with
  | nil => exact .pure _
  | cons st body ih =>
    rw [Stmt.arePrivate, Bool.and_eq_true] at hbody
    rw [Evaluator.stmtsFrom_cons]
    refine (h.step last hbody.1).bind fun next => ?_
    cases next with
    | next last => exact ih last hbody.2
    | leave completion => exact .pure _

theorem stmts (h : ev.Private) {body : List Stmt} (hbody : Stmt.arePrivate body = true) :
    (ev.stmts body).Private :=
  h.stmtsFrom .null hbody

/-! ## Expressions -/

theorem newValue (h : ev.Private) (op : Option BinaryOp) {old : Eval Value} (hold : old.Private)
    {e : Expr} (he : e.isPrivate = true) : (Rule.newValue ev op old e).Private := by
  cases op with
  | none => exact h.expr he
  | some op =>
    refine hold.bind fun current => ?_
    refine (h.expr he).bind fun rhs => ?_
    exact Eval.Private.store.bind fun st => .ofExcept _

theorem assign (h : ev.Private) (op : Option BinaryOp) {target e : Expr}
    (htarget : target.isPrivate = true) (he : e.isPrivate = true) :
    (Rule.assign ctx ev op target e).Private := by
  have hparts := Expr.isPrivate_kind htarget
  unfold Rule.assign
  split
  · rename_i name _
    refine (h.newValue op (Rule.private_ident ctx name) he).bind fun v => ?_
    exact (Rule.private_assignVariable name v).bind fun _ => .pure _
  · rename_i object property hkind
    rw [hkind, ExprKind.isPrivate] at hparts
    refine (h.expr hparts).bind fun object => ?_
    refine (h.newValue op (Rule.private_readMember ctx object property) he).bind fun v => ?_
    exact (Eval.Private.tryWrite _).bind fun _ => .pure _
  · rename_i object key hkind
    rw [hkind, ExprKind.isPrivate, Bool.and_eq_true] at hparts
    refine (h.expr hparts.1).bind fun object => ?_
    refine (h.expr hparts.2).bind fun key => ?_
    refine (h.newValue op (Rule.private_readIndex ctx object key) he).bind fun v => ?_
    exact (Eval.Private.tryWrite _).bind fun _ => .pure _
  · exact .raise _

theorem importModule (h : ev.Private) {source : Expr} (hsource : source.isPrivate = true) :
    (Rule.importModule ctx ev source).Private := by
  refine (h.expr hsource).bind fun path => ?_
  refine Eval.Private.store.bind fun st => ?_
  exact (Rule.private_loadModule ctx _).bind fun exports => Rule.private_namespaceOf exports

theorem callBody (h : ev.Private) {f : Function} (hf : Stmt.arePrivate f.body = true)
    (args : List Value) (receiver : Option Value) :
    (Rule.callBody ctx ev f args receiver).Private := by
  have hcall : Eval.Private fun s =>
      Eval.emitIf ctx.trace (.call f.displayName s.env.callDepth) s :=
    .reading (fun s => s.env.callDepth) fun depth => .emitIf ctx.trace (.call f.displayName depth)
  rw [Rule.callBody_eq]
  refine hcall.bind fun _ => ?_
  refine (Eval.Private.modifyEnv _).bind fun _ => ?_
  exact (h.stmts hf).bind fun completion => Rule.private_callResult completion

/-- The function that is called is one of the store. -/
theorem callRule (h : ev.Private) (hlibrary : ctx.library.Private) (f : Value)
    (args : List Value) (receiver : Option Value) :
    (Rule.call ctx ev f args receiver).Private := by
  unfold Rule.call
  split
  · rename_i ref
    exact fun s hs => (h.callBody (hs ref) args receiver).inCall hs (s.store.function ref)
      (.function ref)
  · exact Rule.private_callBuiltin ctx hlibrary _ args
  · exact Rule.private_callMethod ctx hlibrary _ _ args
  · exact .raise _

theorem callee (h : ev.Private) {e : Expr} (he : e.isPrivate = true) :
    (Rule.callee ctx ev e).Private := by
  have hparts := Expr.isPrivate_kind he
  unfold Rule.callee
  split
  · rename_i object property hkind
    rw [hkind, ExprKind.isPrivate] at hparts
    refine (h.expr hparts).bind fun receiver => ?_
    exact (Rule.private_readMember ctx receiver property).bind fun f => .pure _
  · rename_i object key hkind
    rw [hkind, ExprKind.isPrivate, Bool.and_eq_true] at hparts
    refine (h.expr hparts.1).bind fun receiver => ?_
    refine (h.expr hparts.2).bind fun key => ?_
    exact (Rule.private_readIndex ctx receiver key).bind fun f => .pure _
  · exact (h.expr he).bind fun f => .pure _

theorem callExpr (h : ev.Private) {e : Expr} (he : e.isPrivate = true) {args : List Expr}
    (hargs : Expr.arePrivate args = true) : (Rule.callExpr ctx ev e args).Private := by
  refine (h.callee he).bind fun target => ?_
  refine (h.exprs hargs).bind fun values => ?_
  split
  · exact h.call target.1 values target.2
  · exact .raise _

theorem unary (h : ev.Private) (op : UnaryOp) {operand : Expr}
    (hprivate : operand.isPrivate = true) : (Rule.unary ctx ev op operand).Private := by
  have hoperand : (ev.expr operand >>= fun v => Eval.ofExcept (Value.applyUnary op v)).Private :=
    (h.expr hprivate).bind fun v => .ofExcept _
  have hnamed : ∀ v : Option Value, Eval.Private fun s =>
      if v.isNone then .ok (.string "undefined") s
        else (ev.expr operand >>= fun v => Eval.ofExcept (Value.applyUnary op v)) s := by
    intro v
    cases v with
    | none => exact .pure _
    | some v => exact hoperand
  cases op with
  | typeOf =>
    obtain ⟨span, kind⟩ := operand
    cases kind with
    | ident name => exact .reading (fun s => Rule.lookup? ctx s.env name) hnamed
    | _ => exact hoperand
  | _ => exact hoperand

theorem binary (h : ev.Private) (op : BinaryOp) {left right : Expr} (hl : left.isPrivate = true)
    (hr : right.isPrivate = true) : (Rule.binary ev op left right).Private := by
  refine (h.expr hl).bind fun l => ?_
  refine (h.expr hr).bind fun r => ?_
  exact .reading (fun s => s.store) fun st => .ofExcept (Value.applyBinary st op l r)

theorem logical (h : ev.Private) (op : LogicalOp) {left right : Expr} (hl : left.isPrivate = true)
    (hr : right.isPrivate = true) : (Rule.logical ev op left right).Private := by
  refine (h.expr hl).bind fun l => ?_
  split
  · exact .pure _
  · exact h.expr hr

theorem conditional (h : ev.Private) {test consequent alternate : Expr}
    (htest : test.isPrivate = true) (hconsequent : consequent.isPrivate = true)
    (halternate : alternate.isPrivate = true) :
    (Rule.conditional ev test consequent alternate).Private := by
  refine (h.expr htest).bind fun v => ?_
  split
  · exact h.expr hconsequent
  · exact h.expr halternate

theorem exprKind (h : ev.Private) {kind : ExprKind} (hkind : kind.isPrivate = true) :
    (Rule.exprKind ctx ev kind).Private := by
  cases kind <;> simp only [ExprKind.isPrivate, Bool.and_eq_true] at hkind
  case literal value => exact .pure _
  case ident name => exact Rule.private_ident ctx name
  case this => exact .of_same fun _ => .ok ⟨rfl, rfl⟩
  case list items => exact (h.exprs hkind).bind fun _ => .allocate fun _ h => h.of_functions rfl
  case record entries =>
    exact (h.entries hkind).bind fun _ => .allocate fun _ h => h.of_functions rfl
  case function name params body => exact Rule.private_function name params hkind
  case unary op operand => exact h.unary op hkind
  case update op first target => exact Rule.private_update ctx op first target
  case binary op left right => exact h.binary op hkind.1 hkind.2
  case logical op left right => exact h.logical op hkind.1 hkind.2
  case conditional => exact h.conditional hkind.1.1 hkind.1.2 hkind.2
  case assign op target value => exact h.assign op hkind.1 hkind.2
  case member object property =>
    exact (h.expr hkind).bind fun v => Rule.private_readMember ctx v property
  case index object key =>
    exact (h.expr hkind.1).bind fun v => (h.expr hkind.2).bind fun k =>
      Rule.private_readIndex ctx v k
  case call e args => exact h.callExpr hkind.1 hkind.2
  case importModule source => exact h.importModule hkind

/-! ## Loops -/

theorem loopBody (h : ev.Private) {body : Stmt} (hbody : body.isPrivate = true) :
    (Rule.loopBody ev body).Private :=
  (h.stmt hbody).bind fun _ => .pure _

theorem whileTrue (h : ev.Private) {test : Expr} (htest : test.isPrivate = true)
    {continuing : Eval Eval.Round} (hc : continuing.Private) :
    (Rule.whileTrue ev test continuing).Private := by
  refine (h.expr htest).bind fun v => ?_
  split
  · exact hc
  · exact .pure _

theorem bodyThen (h : ev.Private) {body : Stmt} (hbody : body.isPrivate = true)
    {continuing : Eval Eval.Round} (hc : continuing.Private) :
    (Rule.bodyThen ev body continuing).Private := by
  refine (h.loopBody hbody).bind fun round => ?_
  cases round with
  | again => exact hc
  | finish completion => exact .pure _

theorem whileLoop (h : ev.Private) {test : Expr} (htest : test.isPrivate = true) {body : Stmt}
    (hbody : body.isPrivate = true) : (Rule.whileLoop ev test body).Private := by
  refine .repeating (Eval.Private.checkInterrupt.bind fun _ => ?_) _
  exact h.whileTrue htest (h.loopBody hbody)

theorem doWhile (h : ev.Private) {body : Stmt} (hbody : body.isPrivate = true) {test : Expr}
    (htest : test.isPrivate = true) : (Rule.doWhile ev body test).Private := by
  refine .repeating (Eval.Private.checkInterrupt.bind fun _ => ?_) _
  exact h.bodyThen hbody (h.whileTrue htest (.pure _))

theorem forUpdate (h : ev.Private) {update : Option Expr}
    (hupdate : Expr.optionPrivate update = true) : (Rule.forUpdate ev update).Private := by
  cases update with
  | none => exact .pure _
  | some e => exact (h.expr hupdate).bind fun _ => .pure _

theorem forRound (h : ev.Private) {test update : Option Expr}
    (htest : Expr.optionPrivate test = true) (hupdate : Expr.optionPrivate update = true)
    {body : Stmt} (hstmt : body.isPrivate = true) :
    (Rule.forRound ev test update body).Private := by
  have hbody := h.bodyThen hstmt (h.forUpdate hupdate)
  refine Eval.Private.checkInterrupt.bind fun _ => ?_
  cases test with
  | none => exact hbody
  | some test => exact h.whileTrue htest hbody

theorem forLoop (h : ev.Private) {init : Option Stmt} (hinit : Stmt.optionPrivate init = true)
    {test update : Option Expr} (htest : Expr.optionPrivate test = true)
    (hupdate : Expr.optionPrivate update = true) {body : Stmt} (hbody : body.isPrivate = true) :
    (Rule.forLoop ev init test update body).Private := by
  have hloop := (h.forRound htest hupdate hbody).repeating ev.rounds
  refine Eval.Private.inBlock ?_
  cases init with
  | none => exact hloop
  | some init => exact (h.stmt hinit).bind fun _ => hloop

theorem itemRound (h : ev.Private) (binding : LoopBinding) {body : Stmt}
    (hbody : body.isPrivate = true) (item : Value) :
    (Rule.itemRound ev binding body item).Private := by
  have hitem : (Rule.bindItem binding item).Private := by
    unfold Rule.bindItem
    split
    · exact .modifyEnv _
    · exact Rule.private_assignVariable _ _
  refine Eval.Private.checkInterrupt.bind fun _ => ?_
  exact hitem.bind fun _ => h.loopBody hbody

theorem iterate (h : ev.Private) (binding : LoopBinding) (items : List Value) {body : Stmt}
    (hbody : body.isPrivate = true) : (Rule.iterate ev binding items body).Private := by
  have hloop := Eval.Private.forEach (h.itemRound binding hbody) items
  refine Eval.Private.inBlock ?_
  split
  · exact (Eval.Private.modifyEnv _).bind fun _ => hloop
  · exact hloop

theorem forIn (h : ev.Private) (binding : LoopBinding) {object : Expr}
    (hobject : object.isPrivate = true) {body : Stmt} (hbody : body.isPrivate = true) :
    (Rule.forIn ctx ev binding object body).Private := by
  refine (h.expr hobject).bind fun v => ?_
  exact Eval.Private.store.bind fun st => h.iterate binding _ hbody

theorem forOf (h : ev.Private) (binding : LoopBinding) {iterable : Expr}
    (hiterable : iterable.isPrivate = true) {body : Stmt} (hbody : body.isPrivate = true) :
    (Rule.forOf ctx ev binding iterable body).Private := by
  refine (h.expr hiterable).bind fun v => ?_
  refine Eval.Private.store.bind fun st => ?_
  exact (Eval.Private.ofExcept _).bind fun items => h.iterate binding items hbody

/-! ## Statements -/

theorem initial (h : ev.Private) {init : Option Expr} (hinit : Expr.optionPrivate init = true) :
    (Rule.initial ev init).Private := by
  cases init with
  | none => exact .pure _
  | some e => exact h.expr hinit

theorem declarators (h : ev.Private) (mode : Mode) (span : Span) {ds : List (String × Option Expr)}
    (hds : Stmt.declaratorsPrivate ds = true) : (Rule.declare ev mode span ds).Private := by
  induction ds with
  | nil => exact .pure _
  | cons d ds ih =>
    rw [Stmt.declaratorsPrivate, Bool.and_eq_true] at hds
    refine (h.initial hds.1).bind fun v => ?_
    exact ((Eval.Private.tryEnv _).mapError _).bind fun _ => ih hds.2

theorem ifElse (h : ev.Private) {test : Expr} (htest : test.isPrivate = true) {consequent : Stmt}
    (hconsequent : consequent.isPrivate = true) {alternate : Option Stmt}
    (halternate : Stmt.optionPrivate alternate = true) :
    (Rule.ifElse ev test consequent alternate).Private := by
  refine (h.expr htest).bind fun v => ?_
  split
  · exact h.stmt hconsequent
  · cases alternate with
    | none => exact .pure _
    | some st => exact h.stmt halternate

theorem whenGuard (h : ev.Private) {test : Expr} (htest : test.isPrivate = true) {body : List Stmt}
    (hbody : Stmt.arePrivate body = true) : (Rule.whenGuard ev test body).Private := by
  refine (h.expr htest).bind fun v => ?_
  split
  · exact h.block hbody
  · exact .pure _

theorem fallThrough (h : ev.Private) {cases : List (Option Expr × List Stmt)}
    (hcases : Stmt.casesPrivate cases = true) : (Rule.fallThrough ev cases).Private := by
  induction cases with
  | nil => exact .pure _
  | cons c cases ih =>
    rw [Stmt.casesPrivate, Bool.and_eq_true, Bool.and_eq_true] at hcases
    refine (h.stmts hcases.1.2).bind fun completion => ?_
    cases completion with
    | normal v => exact ih hcases.2
    | broke | continued | returned => exact .pure _

theorem chooseCase (h : ev.Private) (v : Value) {cases : List (Option Expr × List Stmt)}
    (hcases : Stmt.casesPrivate cases = true) : (Rule.chooseCase ev v cases).Private := by
  induction cases with
  | nil => exact .pure _
  | cons c cases ih =>
    have hthrough := h.fallThrough hcases
    rw [Stmt.casesPrivate, Bool.and_eq_true, Bool.and_eq_true] at hcases
    obtain ⟨test, body⟩ := c
    cases test with
    | none => exact hthrough
    | some test =>
      refine (h.expr hcases.1.1).bind fun t => ?_
      split
      · exact hthrough
      · exact ih hcases.2

theorem catchClause (h : ev.Private) (param : Option String) {body : List Stmt}
    (hbody : Stmt.arePrivate body = true) (thrown : Value) :
    (Rule.catchClause ev param body thrown).Private := by
  refine Eval.Private.inBlock ?_
  cases param with
  | none => exact h.stmts hbody
  | some name => exact (Eval.Private.modifyEnv _).bind fun _ => h.stmts hbody

theorem handled (h : ev.Private) (result : Except Failure Completion)
    {handler : Option (Option String × List Stmt)}
    (hhandler : Stmt.handlerPrivate handler = true) :
    (Rule.handled ev result handler).Private := by
  cases handler with
  | none => exact .pure _
  | some clause =>
    cases result with
    | ok completion => exact .pure _
    | error failure =>
      simp only [Rule.handled]
      split
      · refine (Eval.Private.emit _).bind fun _ => ?_
        exact (h.catchClause clause.1 hhandler failure.thrownValue).attempt
      · exact .pure _

theorem finalized (h : ev.Private) (blockFailed : Bool) (outcome : Except Failure Completion)
    {finalizer : Option (List Stmt)} (hfinalizer : Stmt.finalizerPrivate finalizer = true) :
    (Rule.finalized ev blockFailed outcome finalizer).Private := by
  cases finalizer with
  | none => exact .ofResult outcome
  | some body =>
    refine (h.block hfinalizer).attempt.bind fun result => ?_
    cases result with
    | ok completion =>
      dsimp only
      split
      · exact .pure completion
      · exact .ofResult outcome
    | error failure =>
      dsimp only
      split
      · exact (Eval.Private.emit _).bind fun _ => .ofResult outcome
      · exact .fail failure

theorem tryCatch (h : ev.Private) {block : List Stmt} (hblock : Stmt.arePrivate block = true)
    {handler : Option (Option String × List Stmt)} (hhandler : Stmt.handlerPrivate handler = true)
    {finalizer : Option (List Stmt)} (hfinalizer : Stmt.finalizerPrivate finalizer = true) :
    (Rule.tryCatch ev block handler finalizer).Private := by
  refine (h.block hblock).attempt.bind fun result => ?_
  refine (h.handled result hhandler).bind fun outcome => ?_
  exact h.finalized (Rule.isFailure result) outcome hfinalizer

theorem throwValue (h : ev.Private) (span : Span) {e : Expr} (he : e.isPrivate = true) :
    (Rule.throwValue ev span e).Private := by
  refine (h.expr he).bind fun v => ?_
  exact Eval.Private.store.bind fun st => .fail _

theorem observe (h : ev.Private) (targets : List String) {handler : Expr}
    (hhandler : handler.isPrivate = true) : (Rule.observe ev targets handler).Private := by
  refine (h.expr hhandler).bind fun v => ?_
  split
  · refine (Eval.Private.tryEnv _).bind fun _ => ?_
    exact (Eval.Private.emit _).bind fun _ => .pure _
  · exact .raise _

theorem stmtKind (h : ev.Private) (span : Span) {kind : StmtKind} (hkind : kind.isPrivate = true) :
    (Rule.stmtKind ctx ev span kind).Private := by
  cases kind <;> simp only [StmtKind.isPrivate, Bool.and_eq_true] at hkind
  case expression e => exact (h.expr hkind).bind fun _ => .pure _
  case declare kind ds => exact h.declarators kind.mode span hkind
  case function name params body => exact Rule.private_declareFunction ctx span name params hkind
  case block body => exact h.block hkind
  case ifElse => exact h.ifElse hkind.1.1 hkind.1.2 hkind.2
  case whileLoop test body => exact h.whileLoop hkind.1 hkind.2
  case doWhile body test => exact h.doWhile hkind.1 hkind.2
  case forLoop => exact h.forLoop hkind.1.1.1 hkind.1.1.2 hkind.1.2 hkind.2
  case forIn binding object body => exact h.forIn binding hkind.1 hkind.2
  case forOf binding iterable body => exact h.forOf binding hkind.1 hkind.2
  case switch discriminant cases =>
    exact (h.expr hkind.1).bind fun v => (h.chooseCase v hkind.2).inBlock
  case tryCatch => exact h.tryCatch hkind.1.1 hkind.1.2 hkind.2
  case throw e => exact h.throwValue span hkind
  case ret e => exact (h.initial hkind).bind fun _ => .pure _
  case breakLoop => exact .pure _
  case continueLoop => exact .pure _
  case whenGuard test body => exact h.whenGuard hkind.1 hkind.2
  case otherwise body => exact h.block hkind
  case observe targets handler => exact h.observe targets hkind
  case importNames specifiers source => exact Rule.private_importNames ctx span specifiers source
  case exported st => cases hkind
  case empty => exact .pure _

/-! ## Levels -/

/-- Applying the rules once keeps evaluations private. -/
theorem next (h : ev.Private) (hlibrary : ctx.library.Private) :
    (Evaluator.next ctx ev).Private where
  expr {e} he := ((h.exprKind (Expr.isPrivate_kind he)).locating e.span).unlessInterrupted
  stmt {st} hst := by
    refine (Eval.Private.locating ?_ st.span).unlessInterrupted
    exact (Eval.Private.emitIf _ _).bind fun _ => h.stmtKind st.span (Stmt.isPrivate_kind hst)
  block hbody := (h.stmts hbody).inBlock
  call := h.callRule hlibrary

end Evaluator.Private

/-- All evaluations of private phrases are private. -/
theorem Evaluator.private_level {ctx : Context} (hlibrary : ctx.library.Private) (n : Nat) :
    (level ctx n).Private := by
  induction n with
  | zero => exact ⟨fun _ _ _ => .exhausted, fun _ _ _ => .exhausted, fun _ _ _ => .exhausted,
      fun _ _ _ _ _ => .exhausted⟩
  | succ n ih =>
    rw [level_succ]
    exact ih.next hlibrary

end ReactiveScript
