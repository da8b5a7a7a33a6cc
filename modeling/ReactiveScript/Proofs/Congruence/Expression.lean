import ReactiveScript.Proofs.Congruence.Basic

/-!
# Congruence of expressions

The rules for variables, modules, calls and expressions, one lemma for each.
-/

namespace ReactiveScript

namespace Rule

theorem ident_eq (ctx : Context) (name : String) :
    ident ctx name = fun s =>
      Eval.ofExcept ((lookup? ctx s.env name).elim (.error (.unknownIdentifier name)) .ok) s := by
  funext s
  unfold ident
  cases lookup? ctx s.env name <;> rfl

/-- The environment is read for the call depth alone. -/
theorem callBody_eq (ctx : Context) (ev : Evaluator) (f : Function) (args : List Value)
    (receiver : Option Value) :
    callBody ctx ev f args receiver = (do
      fun s => Eval.emitIf ctx.trace (.call f.displayName s.env.callDepth) s
      Eval.modifyEnv fun env => bindCall env f.params args receiver
      let completion ← ev.stmts f.body
      callResult completion) :=
  rfl

theorem callBuiltin_eq (ctx : Context) (ref : Ref) (args : List Value) :
    callBuiltin ctx ref args = (do
      let st ← Eval.store
      match (st.builtin ref).arity with
      | some arity =>
        if args.length = arity then
          Eval.hostCall (st.builtin ref).name (ctx.library.builtin (st.builtin ref).name args)
        else Eval.raise (.arityMismatch (st.builtin ref).name arity args.length)
      | none =>
        Eval.hostCall (st.builtin ref).name (ctx.library.builtin (st.builtin ref).name args)) := by
  funext s
  simp only [callBuiltin, Eval.bind_apply, Eval.store]
  cases (s.store.builtin ref).arity with
  | none => rfl
  | some arity => by_cases h : args.length = arity <;> simp only [h, if_true, if_false]

theorem function_eq (name : Option String) (params : List String) (body : List Stmt) :
    function name params body = (do
      let closure ← fun s => .ok s.env.capture s
      Eval.allocate (·.newFunction ⟨name, params, body, closure⟩)) :=
  rfl

end Rule

namespace Congruence

variable {ctx : Context} {trace : Bool} {R : Reach → {α : Type} → Eval α → Eval α → Prop}
  {hosted : (Store → Reply) → Prop} {ev ev' : Evaluator} {r : Reach}

/-! ## Variables and modules -/

/-- An evaluation that looks up a name first, among the globals of the host too. -/
theorem withLookup (hR : Congruence ctx.trace trace R hosted) {α : Type} (name : String)
    {f f' : Option Value → Eval α} (h : ∀ v, R .expression (f v) (f' v)) :
    R .expression (fun s => f (Rule.lookup? ctx s.env name) s)
      (fun s => f' (Rule.lookup? ctx s.env name) s) := by
  have hor : ∀ env, Rule.lookup? ctx env name =
      (env.get? name).or (OrderedMap.find? ctx.globals name) := by
    intro env
    unfold Rule.lookup?
    cases env.get? name <;> rfl
  simp only [hor]
  exact hR.withValue name fun v => h (v.or (OrderedMap.find? ctx.globals name))

theorem ident (hR : Congruence ctx.trace trace R hosted) (name : String) :
    R .expression (Rule.ident ctx name) (Rule.ident (ctx.tracing trace) name) := by
  show R .expression (Rule.ident ctx name) (Rule.ident ctx name)
  rw [Rule.ident_eq]
  exact hR.withLookup name fun v => hR.ofExcept (v.elim (.error (.unknownIdentifier name)) .ok)

theorem this (hR : Congruence ctx.trace trace R hosted) : R .expression Rule.this Rule.this :=
  hR.withValue Rule.thisName fun v => hR.pure (v.getD .null)

theorem readMember (hR : Congruence ctx.trace trace R hosted) (object : Value) (property : String) :
    R r (Rule.readMember ctx object property)
      (Rule.readMember (ctx.tracing trace) object property) :=
  hR.withStore fun st => hR.ofExcept (Value.getMember ctx.library st object property)

theorem readIndex (hR : Congruence ctx.trace trace R hosted) (object key : Value) :
    R r (Rule.readIndex ctx object key) (Rule.readIndex (ctx.tracing trace) object key) :=
  hR.withStore fun st => hR.ofExcept (Value.getIndex ctx.library st object key)

theorem newValue (hR : Congruence ctx.trace trace R hosted) (h : ev.Related R ev')
    (op : Option BinaryOp) {old old' : Eval Value} (hold : R .expression old old') (e : Expr) :
    R .expression (Rule.newValue ev op old e) (Rule.newValue ev' op old' e) := by
  cases op with
  | none => exact h.expr e
  | some op =>
    refine hR.bind hold fun current => ?_
    refine hR.bind (h.expr e) fun rhs => ?_
    exact hR.bind hR.store fun st => hR.ofExcept _

theorem assign (hR : Congruence ctx.trace trace R hosted) (h : ev.Related R ev')
    (op : Option BinaryOp) (target e : Expr) :
    R .expression (Rule.assign ctx ev op target e)
      (Rule.assign (ctx.tracing trace) ev' op target e) := by
  unfold Rule.assign
  split
  · rename_i name _
    refine hR.bind (hR.newValue h op (hR.ident name) e) fun v => ?_
    exact hR.bind (hR.assignVariable name v) fun _ => hR.pure v
  · rename_i object property _
    refine hR.bind (h.expr object) fun object => ?_
    refine hR.bind (hR.newValue h op (hR.readMember object property) e) fun v => ?_
    exact hR.bind (hR.tryWrite _) fun _ => hR.pure v
  · rename_i object key _
    refine hR.bind (h.expr object) fun object => ?_
    refine hR.bind (h.expr key) fun key => ?_
    refine hR.bind (hR.newValue h op (hR.readIndex object key) e) fun v => ?_
    exact hR.bind (hR.tryWrite _) fun _ => hR.pure v
  · exact hR.raise _

theorem update (hR : Congruence ctx.trace trace R hosted) (op : UpdateOp) (first : Bool)
    (target : Expr) :
    R .expression (Rule.update ctx op first target)
      (Rule.update (ctx.tracing trace) op first target) := by
  unfold Rule.update
  split
  · rename_i name _
    refine hR.bind (hR.ident name) fun old => ?_
    split
    · rename_i n
      exact hR.bind (hR.assignVariable name _) fun _ => hR.pure _
    · exact hR.raise _
  · exact hR.raise _

theorem loadModule (hR : Congruence ctx.trace trace R hosted) (path : String) :
    R r (Rule.loadModule ctx path) (Rule.loadModule (ctx.tracing trace) path) := by
  show R r (Rule.loadModule ctx path) (Rule.loadModule ctx path)
  unfold Rule.loadModule
  split
  · exact hR.raise _
  · refine hR.bind (hR.emit _) fun _ => ?_
    split
    · exact hR.pure _
    · exact hR.raise _

theorem importModule (hR : Congruence ctx.trace trace R hosted) (h : ev.Related R ev')
    (source : Expr) :
    R .expression (Rule.importModule ctx ev source)
      (Rule.importModule (ctx.tracing trace) ev' source) := by
  refine hR.bind (h.expr source) fun path => ?_
  refine hR.bind hR.store fun st => ?_
  exact hR.bind (hR.loadModule _) fun exports => hR.allocate _ (.record _)

theorem importValue (hR : Congruence ctx.trace trace R hosted) (source : String) (exports : Exports)
    (specifier : ImportSpecifier) :
    R r (Rule.importValue source exports specifier)
      (Rule.importValue source exports specifier) := by
  cases specifier with
  | named imported localName =>
    simp only [Rule.importValue]
    split
    · exact hR.pure _
    · exact hR.raise _
  | everything localName =>
    show R r (Rule.namespaceOf exports) (Rule.namespaceOf exports)
    exact hR.allocate _ (.record _)

/-- The imports of a statement, by induction on those that are left. -/
theorem bindImports (hR : Congruence ctx.trace trace R hosted) (span : Span) (source : String)
    (exports : Exports) (specifiers : List ImportSpecifier) :
    R .statement (Rule.bindImports span source exports specifiers)
      (Rule.bindImports span source exports specifiers) := by
  induction specifiers with
  | nil => exact hR.pure _
  | cons specifier specifiers ih =>
    refine hR.bind (hR.importValue source exports specifier) fun v => ?_
    exact hR.bind (hR.declare _ _ _ _) fun _ => ih

theorem importNames (hR : Congruence ctx.trace trace R hosted) (span : Span)
    (specifiers : List ImportSpecifier) (source : String) :
    R .statement (Rule.importNames ctx span specifiers source)
      (Rule.importNames (ctx.tracing trace) span specifiers source) :=
  hR.bind (hR.loadModule source) fun exports => hR.bindImports span source exports specifiers

theorem exported (hR : Congruence ctx.trace trace R hosted) (h : ev.Related R ev') (st : Stmt) :
    R .statement (Rule.exported ev st) (Rule.exported ev' st) :=
  hR.bind (h.stmt st) fun completion => hR.exports completion _

/-! ## Calls -/

/-- The parameters of a call are defined one after the other. -/
theorem bindParams {trace₁ trace₂ : Bool} (hR : Congruence trace₁ trace₂ R hosted)
    (params : List String) (args : List Value) :
    R .owner (Eval.modifyEnv fun env => Rule.bindParams env params args)
      (Eval.modifyEnv fun env => Rule.bindParams env params args) := by
  induction params generalizing args with
  | nil => exact hR.pure ()
  | cons param params ih =>
    cases args with
    | nil => exact hR.bind (hR.define param .null .mutable) fun _ => ih []
    | cons arg args => exact hR.bind (hR.define param arg .mutable) fun _ => ih args

theorem bindCall {trace₁ trace₂ : Bool} (hR : Congruence trace₁ trace₂ R hosted)
    (params : List String) (args : List Value) (receiver : Option Value) :
    R .owner (Eval.modifyEnv fun env => Rule.bindCall env params args receiver)
      (Eval.modifyEnv fun env => Rule.bindCall env params args receiver) :=
  hR.bind (hR.define Rule.thisName (receiver.getD .null) .immutable) fun _ =>
    hR.bindParams params args

theorem callResult (hR : Congruence ctx.trace trace R hosted) (completion : Completion) :
    R r (Rule.callResult completion) (Rule.callResult completion) := by
  unfold Rule.callResult
  split
  · exact hR.raise _
  · split <;> exact hR.pure _

theorem callBody (hR : Congruence ctx.trace trace R hosted) (h : ev.Related R ev') (f : Function)
    (args : List Value) (receiver : Option Value) :
    R .owner (Rule.callBody ctx ev f args receiver)
      (Rule.callBody (ctx.tracing trace) ev' f args receiver) := by
  rw [Rule.callBody_eq, Rule.callBody_eq]
  refine hR.bind (hR.emitIf (fun depth => .call f.displayName depth) fun _ => rfl) fun _ => ?_
  refine hR.bind (hR.bindCall f.params args receiver) fun _ => ?_
  refine hR.bind (hR.ofStatement (hR.stmts h f.body)) fun completion => ?_
  exact hR.callResult completion

theorem callBuiltin [ctx.library.Within hosted] (hR : Congruence ctx.trace trace R hosted)
    (ref : Ref) (args : List Value) :
    R r (Rule.callBuiltin ctx ref args) (Rule.callBuiltin (ctx.tracing trace) ref args) := by
  show R r (Rule.callBuiltin ctx ref args) (Rule.callBuiltin ctx ref args)
  rw [Rule.callBuiltin_eq]
  refine hR.bind hR.store fun st => ?_
  split
  · split
    · exact hR.hostCall _ _ (HostLibrary.Within.builtin _ args)
    · exact hR.raise _
  · exact hR.hostCall _ _ (HostLibrary.Within.builtin _ args)

theorem callMethod [ctx.library.Within hosted] (hR : Congruence ctx.trace trace R hosted)
    (ref : Ref) (method : String) (args : List Value) :
    R r (Rule.callMethod ctx ref method args)
      (Rule.callMethod (ctx.tracing trace) ref method args) :=
  hR.withStore fun st => hR.hostCall ((st.host ref).typeName ++ "." ++ method)
    (fun st => ctx.library.invoke st ref method args) (HostLibrary.Within.invoke ref method args)

theorem call [ctx.library.Within hosted] (hR : Congruence ctx.trace trace R hosted)
    (h : ev.Related R ev') (f : Value) (args : List Value) (receiver : Option Value) :
    R .call (Rule.call ctx ev f args receiver)
      (Rule.call (ctx.tracing trace) ev' f args receiver) := by
  unfold Rule.call
  split
  · rename_i ref
    exact hR.withStore fun st => hR.inCall (st.function ref) (.function ref)
      (hR.callBody h (st.function ref) args receiver)
  · exact hR.callBuiltin _ args
  · exact hR.callMethod _ _ args
  · exact hR.raise _

theorem callee (hR : Congruence ctx.trace trace R hosted) (h : ev.Related R ev') (e : Expr) :
    R .expression (Rule.callee ctx ev e) (Rule.callee (ctx.tracing trace) ev' e) := by
  unfold Rule.callee
  split
  · rename_i object property _
    refine hR.bind (h.expr object) fun receiver => ?_
    exact hR.bind (hR.readMember receiver property) fun f => hR.pure _
  · rename_i object key _
    refine hR.bind (h.expr object) fun receiver => ?_
    refine hR.bind (h.expr key) fun key => ?_
    exact hR.bind (hR.readIndex receiver key) fun f => hR.pure _
  · exact hR.bind (h.expr e) fun f => hR.pure _

theorem callExpr (hR : Congruence ctx.trace trace R hosted) (h : ev.Related R ev') (e : Expr)
    (args : List Expr) :
    R .expression (Rule.callExpr ctx ev e args)
      (Rule.callExpr (ctx.tracing trace) ev' e args) := by
  refine hR.bind (hR.callee h e) fun target => ?_
  refine hR.bind (hR.exprs h args) fun values => ?_
  split
  · exact hR.ofCall (h.call target.1 values target.2)
  · exact hR.raise _

/-! ## Expressions -/

theorem function (hR : Congruence ctx.trace trace R hosted) (name : Option String)
    (params : List String) (body : List Stmt) :
    R .expression (Rule.function name params body) (Rule.function name params body) := by
  rw [Rule.function_eq]
  exact hR.bind hR.capture fun closure => hR.allocate _ (.function _)

/-- The operand is simply evaluated, unless it is a name whose type is asked for. -/
theorem unary (hR : Congruence ctx.trace trace R hosted) (h : ev.Related R ev') (op : UnaryOp)
    (operand : Expr) :
    R .expression (Rule.unary ctx ev op operand)
      (Rule.unary (ctx.tracing trace) ev' op operand) := by
  have hoperand : R .expression
      (ev.expr operand >>= fun v => Eval.ofExcept (Value.applyUnary op v))
      (ev'.expr operand >>= fun v => Eval.ofExcept (Value.applyUnary op v)) :=
    hR.bind (h.expr operand) fun v => hR.ofExcept _
  have hnamed : ∀ v : Option Value, R .expression
      (fun s => if v.isNone then .ok (.string "undefined") s
        else (ev.expr operand >>= fun v => Eval.ofExcept (Value.applyUnary op v)) s)
      (fun s => if v.isNone then .ok (.string "undefined") s
        else (ev'.expr operand >>= fun v => Eval.ofExcept (Value.applyUnary op v)) s) := by
    intro v
    cases v with
    | none => exact hR.pure _
    | some v => exact hoperand
  cases op with
  | typeOf =>
    obtain ⟨span, kind⟩ := operand
    cases kind with
    | ident name => exact hR.withLookup name hnamed
    | _ => exact hoperand
  | _ => exact hoperand

theorem binary (hR : Congruence ctx.trace trace R hosted) (h : ev.Related R ev') (op : BinaryOp)
    (left right : Expr) :
    R .expression (Rule.binary ev op left right) (Rule.binary ev' op left right) := by
  refine hR.bind (h.expr left) fun l => ?_
  refine hR.bind (h.expr right) fun v => ?_
  exact hR.withStore fun st => hR.ofExcept (Value.applyBinary st op l v)

theorem logical (hR : Congruence ctx.trace trace R hosted) (h : ev.Related R ev') (op : LogicalOp)
    (left right : Expr) :
    R .expression (Rule.logical ev op left right) (Rule.logical ev' op left right) := by
  refine hR.bind (h.expr left) fun l => ?_
  split
  · exact hR.pure l
  · exact h.expr right

theorem conditional (hR : Congruence ctx.trace trace R hosted) (h : ev.Related R ev')
    (test consequent alternate : Expr) :
    R .expression (Rule.conditional ev test consequent alternate)
      (Rule.conditional ev' test consequent alternate) := by
  refine hR.bind (h.expr test) fun v => ?_
  split
  · exact h.expr consequent
  · exact h.expr alternate

theorem list (hR : Congruence ctx.trace trace R hosted) (h : ev.Related R ev') (items : List Expr) :
    R .expression (Rule.list ev items) (Rule.list ev' items) :=
  hR.bind (hR.exprs h items) fun _ => hR.allocate _ (.list _)

theorem record (hR : Congruence ctx.trace trace R hosted) (h : ev.Related R ev')
    (entries : List (String × Expr)) :
    R .expression (Rule.record ev entries) (Rule.record ev' entries) :=
  hR.bind (hR.entries h entries) fun _ => hR.allocate _ (.record _)

theorem member (hR : Congruence ctx.trace trace R hosted) (h : ev.Related R ev') (object : Expr)
    (property : String) :
    R .expression (Rule.member ctx ev object property)
      (Rule.member (ctx.tracing trace) ev' object property) :=
  hR.bind (h.expr object) fun v => hR.readMember v property

theorem index (hR : Congruence ctx.trace trace R hosted) (h : ev.Related R ev')
    (object key : Expr) :
    R .expression (Rule.index ctx ev object key)
      (Rule.index (ctx.tracing trace) ev' object key) := by
  refine hR.bind (h.expr object) fun v => ?_
  exact hR.bind (h.expr key) fun k => hR.readIndex v k

theorem exprKind (hR : Congruence ctx.trace trace R hosted) (h : ev.Related R ev')
    (kind : ExprKind) :
    R .expression (Rule.exprKind ctx ev kind) (Rule.exprKind (ctx.tracing trace) ev' kind) := by
  cases kind with
  | literal value => exact hR.pure _
  | ident name => exact hR.ident name
  | this => exact hR.this
  | list items => exact hR.list h items
  | record entries => exact hR.record h entries
  | function name params body => exact hR.function name params body
  | unary op operand => exact hR.unary h op operand
  | update op first target => exact hR.update op first target
  | binary op left right => exact hR.binary h op left right
  | logical op left right => exact hR.logical h op left right
  | conditional test consequent alternate => exact hR.conditional h test consequent alternate
  | assign op target value => exact hR.assign h op target value
  | member object property => exact hR.member h object property
  | index object key => exact hR.index h object key
  | call e args => exact hR.callExpr h e args
  | importModule source => exact hR.importModule h source

theorem expr (hR : Congruence ctx.trace trace R hosted) (h : ev.Related R ev') (e : Expr) :
    R .expression (Rule.expr ctx ev e) (Rule.expr (ctx.tracing trace) ev' e) :=
  hR.unlessInterrupted (hR.locating e.span (hR.exprKind h e.kind))

end Congruence

end ReactiveScript
