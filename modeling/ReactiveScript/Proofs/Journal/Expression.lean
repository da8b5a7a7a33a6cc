import ReactiveScript.Proofs.Congruence.Expression
import ReactiveScript.Proofs.Journal.Basic

/-!
# Journals of expressions

The journals of variables, modules, calls and expressions, and one lemma for each rule. Of all
expressions, only `x = e`, `x += e` and the like, `x++` and `x--` make an entry of their own.
-/

namespace ReactiveScript

namespace Journal

variable (ctx : Context) (ev : Evaluator) (js : Journals)

/-! ## Variables and modules -/

/-- The value to assign, after the old value was read if there is an operator. -/
def newValue (op : Option BinaryOp) (old : Eval Value) (e : Expr) : Journal :=
  match op with
  | none => js.expr e
  | some _ => after old fun _ => js.expr e

/-- An assignment. Writing to a member or an element is no assignment to a variable. -/
def assign (op : Option BinaryOp) (target e : Expr) : Journal :=
  match target.kind with
  | .ident name =>
    andThen (Rule.newValue ev op (Rule.ident ctx name) e)
      (newValue js op (Rule.ident ctx name) e) fun v => entry name v
  | .member object property =>
    andThen (ev.expr object) (js.expr object) fun object =>
      newValue js op (Rule.readMember ctx object property) e
  | .index object key =>
    andThen (ev.expr object) (js.expr object) fun object =>
      andThen (ev.expr key) (js.expr key) fun key =>
        newValue js op (Rule.readIndex ctx object key) e
  | _ => blank

/-- A counting expression. -/
def update (op : UpdateOp) (target : Expr) : Journal :=
  match target.kind with
  | .ident name =>
    after (Rule.ident ctx name) fun old => match old with
      | .number n => entry name (.number (Rule.count op n))
      | _ => blank
  | _ => blank

/-! ## Calls -/

/-- The body of a call, after receiver and parameters are bound. -/
def callBody (f : Function) (args : List Value) (receiver : Option Value) : Journal :=
  after (fun s => Eval.emitIf ctx.trace (.call f.displayName s.env.callDepth) s) fun _ =>
    after (Eval.modifyEnv fun env => Rule.bindCall env f.params args receiver) fun _ =>
      stmts ev js f.body

/-- A call. Host code executes no assignment. -/
def call (f : Value) (args : List Value) (receiver : Option Value) : Journal :=
  match f with
  | .function ref => fun s =>
    inCall (s.store.function ref) (.function ref)
      (callBody ctx ev js (s.store.function ref) args receiver) s
  | _ => blank

/-- The callee of a call. -/
def callee (e : Expr) : Journal :=
  match e.kind with
  | .member object _ => js.expr object
  | .index object key => andThen (ev.expr object) (js.expr object) fun _ => js.expr key
  | _ => js.expr e

/-- The callee, the arguments and the call. -/
def callExpr (e : Expr) (args : List Expr) : Journal :=
  andThen (Rule.callee ctx ev e) (callee ev js e) fun target =>
    andThen (ev.exprs args) (exprs ev js args) fun values =>
      if target.1.isCallable then js.call target.1 values target.2 else blank

/-! ## Expressions -/

/-- The operand, unless it is an unknown name whose type is asked for. -/
def unary (op : UnaryOp) (operand : Expr) : Journal :=
  match op, operand.kind with
  | .typeOf, .ident name => fun s =>
    if (Rule.lookup? ctx s.env name).isNone then [] else js.expr operand s
  | _, _ => js.expr operand

/-- What stands at an expression. -/
def exprKind : ExprKind → Journal
  | .literal _ | .ident _ | .this | .function _ _ _ => blank
  | .list items => exprs ev js items
  | .record es => entries ev js es
  | .unary op operand => unary ctx js op operand
  | .update op _ target => update ctx op target
  | .binary _ left right => andThen (ev.expr left) (js.expr left) fun _ => js.expr right
  | .logical op left right =>
    andThen (ev.expr left) (js.expr left) fun l =>
      if Rule.decides op l then blank else js.expr right
  | .conditional test consequent alternate =>
    andThen (ev.expr test) (js.expr test) fun v =>
      if v.isTruthy then js.expr consequent else js.expr alternate
  | .assign op target value => assign ctx ev js op target value
  | .member object _ => js.expr object
  | .index object key => andThen (ev.expr object) (js.expr object) fun _ => js.expr key
  | .call e args => callExpr ctx ev js e args
  | .importModule source => js.expr source

/-- An expression, unless the evaluation was interrupted. -/
def expr (e : Expr) : Journal := unlessInterrupted (exprKind ctx ev js e.kind)

end Journal

namespace Journals.Kept

open Eval (Executes)

variable {ctx : Context} {ev : Evaluator} {js : Journals} {r : Reach}

/-! ## Rules for variables and modules -/

theorem ident (name : String) : (Rule.ident ctx name).Executes r .blank :=
  .of_still fun s => by
    unfold Rule.ident
    split
    · exact .ok ⟨rfl, rfl⟩
    · exact .error ⟨rfl, rfl⟩

theorem readMember (object : Value) (property : String) :
    (Rule.readMember ctx object property).Executes r .blank :=
  fun s => Executes.ofExcept (Value.getMember ctx.library s.store object property) s

theorem readIndex (object key : Value) : (Rule.readIndex ctx object key).Executes r .blank :=
  fun s => Executes.ofExcept (Value.getIndex ctx.library s.store object key) s

theorem newValue (h : js.Kept ev) (op : Option BinaryOp) {old : Eval Value}
    (hold : old.Executes .expression .blank) (e : Expr) :
    (Rule.newValue ev op old e).Executes .expression (.newValue js op old e) := by
  cases op with
  | none => exact h.expr e
  | some op =>
    refine hold.bind fun current => (h.expr e).bind_blank fun rhs => ?_
    exact Executes.store.bind_blank fun st => .ofExcept _

theorem assign (h : js.Kept ev) (op : Option BinaryOp) (target e : Expr) :
    (Rule.assign ctx ev op target e).Executes .expression (.assign ctx ev js op target e) := by
  obtain ⟨span, kind⟩ := target
  cases kind with
  | ident name =>
    refine (h.newValue op (ident name) e).bind fun v => ?_
    exact (Executes.assignVariable name v).bind_blank fun _ => .pure v
  | member object property =>
    refine (h.expr object).bind fun object => ?_
    refine (h.newValue op (readMember object property) e).bind_blank fun v => ?_
    exact (Executes.tryWrite _).bind_blank fun _ => .pure v
  | index object key =>
    refine (h.expr object).bind fun object => (h.expr key).bind fun key => ?_
    refine (h.newValue op (readIndex object key) e).bind_blank fun v => ?_
    exact (Executes.tryWrite _).bind_blank fun _ => .pure v
  | _ => exact .raise _

theorem update (op : UpdateOp) (first : Bool) (target : Expr) :
    (Rule.update ctx op first target).Executes .expression (.update ctx op target) := by
  obtain ⟨span, kind⟩ := target
  cases kind with
  | ident name =>
    refine (ident name).bind fun old => ?_
    cases old with
    | number n => exact (Executes.assignVariable name _).bind_blank fun _ => .pure _
    | _ => exact .raise _
  | _ => exact .raise _

theorem loadModule (path : String) : (Rule.loadModule ctx path).Executes r .blank := by
  unfold Rule.loadModule
  split
  · exact .raise _
  · refine (Executes.emit _).bind_blank fun _ => ?_
    split
    · exact .pure _
    · exact .raise _

theorem importModule (h : js.Kept ev) (source : Expr) :
    (Rule.importModule ctx ev source).Executes .expression (js.expr source) := by
  refine (h.expr source).bind_blank fun path => Executes.store.bind_blank fun st => ?_
  exact (loadModule _).bind_blank fun exports => .allocate _

theorem importValue (source : String) (exports : Exports) (specifier : ImportSpecifier) :
    (Rule.importValue source exports specifier).Executes r .blank := by
  cases specifier with
  | named imported localName =>
    simp only [Rule.importValue]
    split
    · exact .pure _
    · exact .raise _
  | everything localName =>
    show (Rule.namespaceOf exports).Executes r .blank
    exact .allocate _

/-- The imports of a statement, by induction on those that are left. -/
theorem bindImports (span : Span) (source : String) (exports : Exports)
    (specifiers : List ImportSpecifier) :
    (Rule.bindImports span source exports specifiers).Executes .statement .blank := by
  induction specifiers with
  | nil => exact .pure _
  | cons specifier specifiers ih =>
    refine (importValue source exports specifier).bind_blank fun v => ?_
    exact (Executes.declare _ _ _ _).bind_blank fun _ => ih

/-! ## Rules for calls -/

/-- The parameters of a call are defined one after the other. -/
theorem bindParams (params : List String) (args : List Value) :
    (Eval.modifyEnv fun env => Rule.bindParams env params args).Executes .owner .blank := by
  induction params generalizing args with
  | nil => exact .pure ()
  | cons param params ih =>
    cases args with
    | nil => exact (Executes.define param .null .mutable).bind_blank fun _ => ih []
    | cons arg args => exact (Executes.define param arg .mutable).bind_blank fun _ => ih args

theorem callResult (completion : Completion) : (Rule.callResult completion).Executes r .blank := by
  unfold Rule.callResult
  split
  · exact .raise _
  · split <;> exact .pure _

theorem callBody (h : js.Kept ev) (f : Function) (args : List Value) (receiver : Option Value) :
    (Rule.callBody ctx ev f args receiver).Executes .owner
      (.callBody ctx ev js f args receiver) := by
  rw [Rule.callBody_eq]
  have hbound : (Eval.modifyEnv fun env => Rule.bindCall env f.params args receiver).Executes
      .owner .blank :=
    (Executes.define Rule.thisName (receiver.getD .null) .immutable).bind_blank fun _ =>
      bindParams f.params args
  refine (Executes.emitIf ctx.trace fun depth => .call f.displayName depth).bind fun _ => ?_
  refine hbound.bind fun _ => (h.stmts f.body).ofStatement.bind_blank fun completion => ?_
  exact callResult completion

theorem callBuiltin (ref : Ref) (args : List Value) :
    (Rule.callBuiltin ctx ref args).Executes r .blank := by
  rw [Rule.callBuiltin_eq]
  refine Executes.store.bind_blank fun st => ?_
  split
  · split
    · exact .hostCall _ _
    · exact .raise _
  · exact .hostCall _ _

theorem callRule (h : js.Kept ev) (f : Value) (args : List Value) (receiver : Option Value) :
    (Rule.call ctx ev f args receiver).Executes .call (.call ctx ev js f args receiver) := by
  cases f with
  | function ref =>
    exact fun s => (h.callBody (s.store.function ref) args receiver).inCall
      (s.store.function ref) (.function ref) s
  | builtin ref => exact callBuiltin ref args
  | method ref method => exact fun s => Executes.hostCall _ _ s
  | _ => exact .raise _

theorem callee (h : js.Kept ev) (e : Expr) :
    (Rule.callee ctx ev e).Executes .expression (.callee ev js e) := by
  obtain ⟨span, kind⟩ := e
  cases kind with
  | member object property =>
    refine (h.expr object).bind_blank fun receiver => ?_
    exact (readMember receiver property).bind_blank fun f => .pure _
  | index object key =>
    refine (h.expr object).bind fun receiver => (h.expr key).bind_blank fun key => ?_
    exact (readIndex receiver key).bind_blank fun f => .pure _
  | _ => exact (h.expr _).bind_blank fun f => .pure _

theorem callExpr (h : js.Kept ev) (e : Expr) (args : List Expr) :
    (Rule.callExpr ctx ev e args).Executes .expression (.callExpr ctx ev js e args) := by
  refine (h.callee e).bind fun target => (h.exprs args).bind fun values => ?_
  exact .ite (h.call target.1 values target.2).ofCall (.raise _)

/-! ## Rules for expressions -/

theorem unary (h : js.Kept ev) (op : UnaryOp) (operand : Expr) :
    (Rule.unary ctx ev op operand).Executes .expression (.unary ctx js op operand) := by
  have hoperand : (ev.expr operand >>= fun v => Eval.ofExcept (Value.applyUnary op v)).Executes
      .expression (js.expr operand) :=
    (h.expr operand).bind_blank fun v => .ofExcept _
  cases op with
  | typeOf =>
    obtain ⟨span, kind⟩ := operand
    cases kind with
    | ident name =>
      intro s
      unfold Rule.unary Journal.unary
      by_cases hs : (Rule.lookup? ctx s.env name).isNone = true
      · simp only [Expr.kind, if_pos hs]
        exact .ok ⟨[], .still rfl rfl, .nil⟩
      · simp only [Expr.kind, if_neg hs]
        exact hoperand s
    | _ => exact hoperand
  | _ => exact hoperand

theorem exprKind (h : js.Kept ev) (kind : ExprKind) :
    (Rule.exprKind ctx ev kind).Executes .expression (.exprKind ctx ev js kind) := by
  cases kind with
  | literal value => exact .pure _
  | ident name => exact ident name
  | this => exact .of_still fun _ => .ok ⟨rfl, rfl⟩
  | list items => exact (h.exprs items).bind_blank fun _ => .allocate _
  | record es => exact (h.entries es).bind_blank fun _ => .allocate _
  | function name params body => exact .of_still fun _ => .ok ⟨rfl, rfl⟩
  | unary op operand => exact h.unary op operand
  | update op first target => exact update op first target
  | binary op left right =>
    refine (h.expr left).bind fun l => (h.expr right).bind_blank fun v => ?_
    exact fun s => Executes.ofExcept (Value.applyBinary s.store op l v) s
  | logical op left right => exact (h.expr left).bind fun l => .ite (.pure l) (h.expr right)
  | conditional test consequent alternate =>
    exact (h.expr test).bind fun v => .ite (h.expr consequent) (h.expr alternate)
  | assign op target value => exact h.assign op target value
  | member object property => exact (h.expr object).bind_blank fun v => readMember v property
  | index object key =>
    exact (h.expr object).bind fun v => (h.expr key).bind_blank fun k => readIndex v k
  | call e args => exact h.callExpr e args
  | importModule source => exact h.importModule source

theorem exprRule (h : js.Kept ev) (e : Expr) :
    (Rule.expr ctx ev e).Executes .expression (.expr ctx ev js e) :=
  ((h.exprKind e.kind).locating e.span).unlessInterrupted

end Journals.Kept

end ReactiveScript
