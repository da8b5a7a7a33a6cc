import ReactiveScript.Proofs.Agreement.Basic
import ReactiveScript.Proofs.Congruence.Expression

/-!
# Agreement on expressions

Operators and properties lead from sound values to sound values or to plain causes. With this, the
rules for variables, modules, calls and expressions, one lemma for each.
-/

namespace ReactiveScript

/-! ## Operators and properties -/

namespace Value

variable {bodies : Signals} {lib : HostLibrary} {st : Store}

theorem numericOperand_plain (op : String) (v : Value) :
    OrPlain (fun _ => True) (numericOperand op v) := by
  unfold numericOperand
  split
  · trivial
  · rfl

theorem pairedOperand_plain (op : BinaryOp) (v other : Value) :
    OrPlain (fun _ => True) (pairedOperand op v other) := by
  unfold pairedOperand
  split
  · trivial
  · rfl

theorem applyUnary_plain (op : UnaryOp) (v : Value) :
    OrPlain (fun v => v.isPrimitive = true) (applyUnary op v) := by
  have hoperand := numericOperand_plain op.symbol v
  cases op with
  | neg | plus =>
    unfold applyUnary
    dsimp only
    generalize numericOperand _ v = x at hoperand
    cases x with
    | ok n => rfl
    | error cause => exact hoperand
  | bitNot =>
    unfold applyUnary
    dsimp only
    split <;> rfl
  | not | typeOf | void => rfl

theorem applyArithmetic_plain (op : BinaryOp) (l r : Value) :
    OrPlain (fun v => v.isPrimitive = true) (applyArithmetic op l r) := by
  have hl := numericOperand_plain op.symbol l
  have hr := numericOperand_plain op.symbol r
  unfold applyArithmetic
  generalize numericOperand op.symbol l = x at hl
  generalize numericOperand op.symbol r = y at hr
  cases x with
  | error cause => exact hl
  | ok a =>
    cases y with
    | error cause => exact hr
    | ok b => rfl

theorem pairedOperands_plain (op : BinaryOp) (l r : Value) :
    OrPlain (fun _ => True) (pairedOperands op l r) := by
  have hl := pairedOperand_plain op l r
  have hr := pairedOperand_plain op r l
  unfold pairedOperands
  generalize pairedOperand op l r = x at hl
  generalize pairedOperand op r l = y at hr
  cases x with
  | error cause => exact hl
  | ok a =>
    cases y with
    | error cause => exact hr
    | ok b => trivial

theorem applyComparison_plain (op : BinaryOp) (l r : Value) :
    OrPlain (fun v => v.isPrimitive = true) (applyComparison op l r) := by
  have h := pairedOperands_plain op l r
  unfold applyComparison
  split
  · rfl
  · generalize pairedOperands op _ _ = x at h
    cases x with
    | error cause => exact h
    | ok a => rfl

theorem isPrimitive_bitwise (op : BinaryOp) (a b : BitVec 32) :
    (bitwise op a b).isPrimitive = true := by
  cases op <;> rfl

theorem applyBitwise_plain (op : BinaryOp) (l r : Value) :
    OrPlain (fun v => v.isPrimitive = true) (applyBitwise op l r) := by
  have h := pairedOperands_plain op l r
  unfold applyBitwise
  generalize pairedOperands op l r = x at h
  cases x with
  | error cause => exact h
  | ok a => exact isPrimitive_bitwise op _ _

theorem applyBinary_plain (st : Store) (op : BinaryOp) (l r : Value) :
    OrPlain (fun v => v.isPrimitive = true) (applyBinary st op l r) := by
  unfold applyBinary
  split
  · unfold applyAdd
    split
    · rfl
    · exact applyArithmetic_plain .add l r
  all_goals first
    | rfl
    | exact applyArithmetic_plain _ l r
    | exact applyComparison_plain _ l r
    | exact applyBitwise_plain _ l r

/-- What is missing reads as `null`. -/
theorem sound_getD {found : Option Value} (h : ∀ v, found = some v → st.Sound bodies v) :
    st.Sound bodies (found.getD .null) := by
  cases found with
  | none => exact Store.sound_null
  | some v => exact h v rfl

theorem sound_element {ref : Ref} (h : st.Sound bodies (.list ref)) (i : Option Nat) :
    st.Sound bodies ((i.bind fun i => (st.list ref)[i]?).getD .null) := by
  refine sound_getD fun v hv => ?_
  obtain ⟨i, -, hi⟩ := Option.bind_eq_some_iff.1 hv
  exact h.of_holds (.element (Array.mem_of_getElem? hi))

theorem sound_character (text : String) (i : Option Nat) :
    st.Sound bodies ((i.bind (characterAt? text)).getD .null) := by
  refine sound_getD fun v hv => ?_
  obtain ⟨i, -, hi⟩ := Option.bind_eq_some_iff.1 hv
  obtain ⟨c, -, rfl⟩ := Option.map_eq_some_iff.1 hi
  exact Store.sound_string _

theorem getMember_plain (hlib : lib.Sound bodies) {object : Value}
    (h : st.Sound bodies object) (property : String) :
    OrPlain (st.Sound bodies) (getMember lib st object property) := by
  unfold getMember
  split
  · rfl
  · exact sound_getD fun v hv => h.of_holds (.entry (OrderedMap.mem_of_find? hv))
  · split
    · exact Store.sound_of_isPrimitive rfl
    · exact sound_element h _
  · split
    · exact Store.sound_of_isPrimitive rfl
    · exact sound_character _ _
  · split
    · rename_i v hv
      exact hlib.property h hv
    · split
      · exact Store.sound_method h property
      · exact Store.sound_null
  · exact Store.sound_null

theorem getIndex_plain (hlib : lib.Sound bodies) {object : Value}
    (h : st.Sound bodies object) (key : Value) :
    OrPlain (st.Sound bodies) (getIndex lib st object key) := by
  unfold getIndex
  split
  · exact sound_element h _
  · exact sound_character _ _
  · exact getMember_plain hlib h _

theorem setElement_plain {v : Value} (hv : st.Sound bodies v) (ref : Ref) (i : Nat) :
    OrPlain (Store.Write.Sound bodies st) (setElement st ref i v) := by
  unfold setElement
  split
  · exact hv
  · rfl

theorem setMember_plain (hlib : lib.Sound bodies) {object v : Value}
    (h : st.Sound bodies object) (hv : st.Sound bodies v) (property : String) :
    OrPlain (Store.Write.Sound bodies st) (setMember lib st object property v) := by
  unfold setMember
  split
  · rfl
  · exact hv
  · split
    · exact setElement_plain hv _ _
    · rfl
  · split
    · rename_i write hwrite
      exact hlib.setProperty h hv hwrite
    · rfl
  · rfl

theorem setIndex_plain (hlib : lib.Sound bodies) {object v : Value}
    (h : st.Sound bodies object) (hv : st.Sound bodies v) (key : Value) :
    OrPlain (Store.Write.Sound bodies st) (setIndex lib st object key v) := by
  unfold setIndex
  split
  · split
    · exact setElement_plain hv _ _
    · rfl
  · exact setMember_plain hlib h hv _

end Value

/-- The operand is simply evaluated, unless it is a name whose type is asked for. -/
theorem Rule.unary_cases (ctx : Context) (op : UnaryOp) (operand : Expr) :
    (∀ ev, unary ctx ev op operand =
      (ev.expr operand >>= fun v => Eval.ofExcept (Value.applyUnary op v))) ∨
    ∃ name, ∀ ev, unary ctx ev op operand = fun s =>
      if (lookup? ctx s.env name).isNone then .ok (.string "undefined") s
      else (ev.expr operand >>= fun v => Eval.ofExcept (Value.applyUnary op v)) s := by
  obtain ⟨span, kind⟩ := operand
  cases op with
  | typeOf =>
    cases kind with
    | ident name => exact Or.inr ⟨name, fun _ => rfl⟩
    | _ => exact Or.inl fun _ => rfl
  | _ => exact Or.inl fun _ => rfl

namespace Setting

variable {D : Setting} {ev ev' : Evaluator} {s : State}

namespace Agree

theorem ofExcept {α : Type} {Q : State → α → Prop} {x : Except Cause α} (h : OrPlain (Q s) x) :
    D.Agree s (Eval.ofExcept x) (Eval.ofExcept x) Q := by
  cases x with
  | ok a => exact pure h
  | error cause => exact raise h

/-- An evaluation that reads the store first. -/
theorem withStore {α : Type} {Q : State → α → Prop} {f f' : Store → Eval α}
    (h : D.Agree s (f s.store) (f' s.store) Q) :
    D.Agree s (Eval.store >>= f) (Eval.store >>= f') Q :=
  h

/-- The value of an operator. -/
theorem ofPrimitive {x : Except Cause Value} (h : OrPlain (fun v => v.isPrimitive = true) x) :
    D.Agree s (Eval.ofExcept x) (Eval.ofExcept x) D.value := by
  cases x with
  | ok v => exact pure (Store.sound_of_isPrimitive h)
  | error cause => exact raise h

/-! ## Variables and modules -/

theorem ident (name : String) : D.Agree s (Rule.ident D.ctx name) (Rule.ident D.ctx name)
    D.value := by
  intro hs
  refine ⟨Or.inl rfl, ?_⟩
  unfold Rule.ident Rule.lookup?
  cases hv : s.env.get? name with
  | some v => exact .ok (.refl s) hs (hs.env.get? hv)
  | none =>
    dsimp only
    cases hglobal : OrderedMap.find? D.ctx.globals name with
    | some v => exact .ok (.refl s) hs (hs.globals _ (OrderedMap.mem_of_find? hglobal))
    | none => exact .error (.refl s) hs trivial

theorem this : D.Agree s Rule.this Rule.this D.value :=
  ok rfl fun hs => ⟨.refl s, hs, Value.sound_getD fun _ hv => hs.env.get? hv⟩

theorem readMember {object : Value} (h : D.value s object) (property : String) :
    D.Agree s (Rule.readMember D.ctx object property) (Rule.readMember D.ctx object property)
      D.value :=
  ofExcept (Value.getMember_plain D.host h property)

theorem readIndex {object : Value} (h : D.value s object) (key : Value) :
    D.Agree s (Rule.readIndex D.ctx object key) (Rule.readIndex D.ctx object key) D.value :=
  ofExcept (Value.getIndex_plain D.host h key)

/-- The exports of a module are sound. -/
theorem loadModule (path : String) :
    D.Agree s (Rule.loadModule D.ctx path) (Rule.loadModule D.ctx path)
      fun s exports => ∀ entry ∈ exports, D.value s entry.2 := by
  unfold Rule.loadModule
  split
  · exact raise rfl
  · rename_i modules hmodules
    refine (emit (.loading path)).bind fun _ s₁ _ _ => ?_
    split
    · rename_i exports hexports
      exact ok rfl fun hs =>
        ⟨.refl _, hs, hs.modules modules hmodules _ (OrderedMap.mem_of_find? hexports)⟩
    · exact raise rfl

theorem namespaceOf {exports : Exports} (h : ∀ entry ∈ exports, D.value s entry.2) :
    D.Agree s (Rule.namespaceOf exports) (Rule.namespaceOf exports) D.value :=
  have hentries := OrderedMap.forall_ofEntries h
  allocate (fun _ => Store.grows_newRecord hentries) fun _ => Store.sound_newRecord hentries

theorem importValue (source : String) {exports : Exports}
    (h : ∀ entry ∈ exports, D.value s entry.2) (specifier : ImportSpecifier) :
    D.Agree s (Rule.importValue source exports specifier)
      (Rule.importValue source exports specifier) D.value := by
  cases specifier with
  | named imported localName =>
    simp only [Rule.importValue]
    split
    · rename_i v hv
      exact pure (h _ (OrderedMap.mem_of_find? hv))
    · exact raise rfl
  | everything localName => exact namespaceOf h

/-- A name is declared. -/
theorem declare {v : Value} (hv : D.value s v) (mode : Mode) (name : String)
    (span : Option Span) :
    D.Agree s (Eval.tryEnv fun env => env.declare mode name v span)
      (Eval.tryEnv fun env => env.declare mode name v span) fun _ _ => True :=
  tryEnv fun _ hs henv => hs.env.declare hv henv

/-- A name is defined in a scope of one's own. -/
theorem define {v : Value} (hv : D.value s v) (name : String) (mode : Mode) :
    D.Agree s (Eval.modifyEnv fun env => env.define name v mode)
      (Eval.modifyEnv fun env => env.define name v mode) fun _ _ => True :=
  modifyEnv fun hs => hs.env.define name hv mode

/-- The imports of a statement, by induction on those that are left. -/
theorem bindImports (span : Span) (source : String) {exports : Exports} {here : Signals}
    (specifiers : List ImportSpecifier) (h : ∀ entry ∈ exports, D.value s entry.2) :
    D.Agree s (Rule.bindImports span source exports specifiers)
      (Rule.bindImports span source exports specifiers) (D.completion here) := by
  induction specifiers generalizing s with
  | nil => exact pure (completion_done here)
  | cons specifier specifiers ih =>
    refine (importValue source h specifier).bind fun v s₁ hgrows hv => ?_
    refine (declare hv _ _ _).bind fun _ s₂ hgrows' _ => ?_
    exact ih fun entry hentry => (hgrows.trans hgrows').sound (h entry hentry)

theorem importNames (span : Span) (specifiers : List ImportSpecifier) (source : String)
    {here : Signals} :
    D.Agree s (Rule.importNames D.ctx span specifiers source)
      (Rule.importNames D.ctx span specifiers source) (D.completion here) :=
  (loadModule source).bind fun _ _ _ hexports => bindImports span source specifiers hexports

theorem function (name : Option String) (params : List String) {body : List Stmt}
    (hbody : Stmt.areScoped D.bodies D.bodies body = true) :
    D.Agree s (Rule.function name params body) (Rule.function name params body) D.value := by
  have hfits : s.Sound D.ctx D.bodies →
      s.store.Fits D.bodies ⟨name, params, body, s.env.capture⟩ :=
    fun hs => ⟨hbody, hs.env.capture⟩
  exact allocate (f := (·.newFunction ⟨name, params, body, s.env.capture⟩))
    (fun hs => Store.grows_newFunction (hfits hs)) fun hs => Store.sound_newFunction (hfits hs)

/-! ## Host code -/

theorem callBuiltin (ref : Ref) {args : List Value} (h : ∀ v ∈ args, D.value s v) :
    D.Agree s (Rule.callBuiltin D.ctx ref args) (Rule.callBuiltin D.ctx ref args) D.value := by
  have hcall := hostCall (D := D) (s.store.builtin ref).name
    (D.host.builtin (s.store.builtin ref).name h)
  rw [Rule.callBuiltin_eq]
  refine withStore ?_
  split
  · split
    · exact hcall
    · exact raise rfl
  · exact hcall

theorem callMethod {ref : Ref} (hreceiver : D.value s (.host ref)) (method : String)
    {args : List Value} (h : ∀ v ∈ args, D.value s v) :
    D.Agree s (Rule.callMethod D.ctx ref method args) (Rule.callMethod D.ctx ref method args)
      D.value :=
  hostCall _ (f := fun st => D.ctx.library.invoke st ref method args)
    (D.host.invoke method hreceiver h)

end Agree

namespace Alike

/-! ## Assignment -/

theorem newValue (h : D.Alike ev ev') (op : Option BinaryOp) {old : Eval Value} {e : Expr}
    (hold : D.Agree s old old D.value) (he : e.isScoped D.bodies = true) :
    D.Agree s (Rule.newValue ev op old e) (Rule.newValue ev' op old e) D.value := by
  cases op with
  | none => exact h.expr he
  | some op =>
    refine hold.bind fun current s₁ _ _ => ?_
    refine (h.expr he).bind fun rhs s₂ _ _ => ?_
    exact Agree.ofPrimitive (Value.applyBinary_plain s₂.store op current rhs)

theorem assign (h : D.Alike ev ev') (op : Option BinaryOp) {target e : Expr}
    (htarget : target.isScoped D.bodies = true) (he : e.isScoped D.bodies = true) :
    D.Agree s (Rule.assign D.ctx ev op target e) (Rule.assign D.ctx ev' op target e) D.value := by
  obtain ⟨span, kind⟩ := target
  rw [Expr.isScoped] at htarget
  cases kind with
  | ident name =>
    refine (h.newValue op (Agree.ident name) he).bind fun v s₁ _ hv => ?_
    exact (Agree.assignVariable name hv).bind fun _ s₂ hgrows _ => .pure (hgrows.sound hv)
  | member object property =>
    rw [ExprKind.isScoped] at htarget
    refine (h.expr htarget).bind fun object s₁ _ hobject => ?_
    refine (h.newValue op (Agree.readMember hobject property) he).bind fun v s₂ hgrows hv => ?_
    have hplan := Value.setMember_plain D.host (hgrows.sound hobject) hv property
    exact (Agree.tryWrite fun _ => hplan).bind fun _ s₃ hgrows' _ => .pure (hgrows'.sound hv)
  | index object key =>
    rw [ExprKind.isScoped, Bool.and_eq_true] at htarget
    refine (h.expr htarget.1).bind fun object s₁ _ hobject => ?_
    refine (h.expr htarget.2).bind fun key s₂ hgrows _ => ?_
    have hobject := hgrows.sound hobject
    refine (h.newValue op (Agree.readIndex hobject key) he).bind fun v s₃ hgrows hv => ?_
    have hplan := Value.setIndex_plain D.host (hgrows.sound hobject) hv key
    exact (Agree.tryWrite fun _ => hplan).bind fun _ s₄ hgrows' _ => .pure (hgrows'.sound hv)
  | _ => exact Agree.raise rfl

end Alike

theorem Agree.update (op : UpdateOp) (first : Bool) (target : Expr) :
    D.Agree s (Rule.update D.ctx op first target) (Rule.update D.ctx op first target) D.value := by
  unfold Rule.update
  split
  · rename_i name _
    refine (ident name).bind fun old s₁ _ _ => ?_
    split
    · have hnumber : ∀ (s : State) n, D.value s (.number n) :=
        fun _ _ => Store.sound_of_isPrimitive rfl
      exact (assignVariable name (hnumber s₁ _)).bind fun _ s₂ _ _ => .pure (hnumber s₂ _)
    · exact raise rfl
  · exact raise rfl

namespace Alike

theorem importModule (h : D.Alike ev ev') {source : Expr}
    (hsource : source.isScoped D.bodies = true) :
    D.Agree s (Rule.importModule D.ctx ev source) (Rule.importModule D.ctx ev' source)
      D.value := by
  refine (h.expr hsource).bind fun path s₁ _ _ => ?_
  exact (Agree.loadModule (path.display s₁.store)).bind fun exports s₂ _ hexports =>
    Agree.namespaceOf hexports

/-! ## Calls -/

theorem callResult {c : Completion} (hc : D.completion D.bodies s c) :
    D.Agree s (Rule.callResult c) (Rule.callResult c) D.value := by
  cases c with
  | normal v => exact .pure Store.sound_null
  | broke => exact Agree.fail hc.1
  | continued => exact Agree.fail hc.1
  | returned v => exact .pure hc.2

theorem callBody (h : D.Alike ev ev') {f : Function} {args : List Value} {receiver : Option Value}
    (hbody : Stmt.areScoped D.bodies D.bodies f.body = true) (hargs : ∀ v ∈ args, D.value s v)
    (hreceiver : ∀ v ∈ receiver, D.value s v) :
    D.Agree s (Rule.callBody D.ctx ev f args receiver) (Rule.callBody D.ctx ev' f args receiver)
      D.value := by
  rw [Rule.callBody_eq, Rule.callBody_eq]
  refine (Agree.emitIf D.ctx.trace (.call f.displayName s.env.callDepth)).bind
    fun _ s₁ hgrows _ => ?_
  refine (Agree.modifyEnv fun hs => hs.env.bindCall Store.sound_null f.params
    (fun v hv => hgrows.sound (hargs v hv)) fun v hv => hgrows.sound (hreceiver v hv)).bind
      fun _ s₂ _ _ => ?_
  exact (h.stmts hbody).bind fun c s₃ _ hc => callResult hc

theorem callFunction (h : D.Alike ev ev') {ref : Ref} {args : List Value}
    {receiver : Option Value} (hf : D.value s (.function ref)) (hargs : ∀ v ∈ args, D.value s v)
    (hreceiver : ∀ v ∈ receiver, D.value s v) :
    D.Agree s (Rule.callFunction D.ctx ev ref args receiver)
      (Rule.callFunction D.ctx ev' ref args receiver) D.value := by
  have hfits : s.store.Fits D.bodies (s.store.function ref) :=
    ⟨hf.body, fun _ hentry => hf.of_holds (.captured hentry)⟩
  exact Agree.inCall hfits hf (fun _ _ _ hv => hv) fun env _ =>
    h.callBody hf.body hargs hreceiver

theorem callRule (h : D.Alike ev ev') {f : Value} {args : List Value} {receiver : Option Value}
    (hf : D.value s f) (hargs : ∀ v ∈ args, D.value s v)
    (hreceiver : ∀ v ∈ receiver, D.value s v) :
    D.Agree s (Rule.call D.ctx ev f args receiver) (Rule.call D.ctx ev' f args receiver)
      D.value := by
  unfold Rule.call
  split
  · exact h.callFunction hf hargs hreceiver
  · exact Agree.callBuiltin _ hargs
  · exact Agree.callMethod (hf.of_holds (.receiver _ _)) _ hargs
  · exact Agree.raise rfl

/-- The callee of a call and its receiver. -/
theorem callee (h : D.Alike ev ev') {e : Expr} (he : e.isScoped D.bodies = true) :
    D.Agree s (Rule.callee D.ctx ev e) (Rule.callee D.ctx ev' e) fun s target =>
      D.value s target.1 ∧ ∀ v ∈ target.2, D.value s v := by
  have hplain : D.Agree s (ev.expr e >>= fun f => pure (f, none))
      (ev'.expr e >>= fun f => pure (f, none)) fun s target =>
        D.value s target.1 ∧ ∀ v ∈ target.2, D.value s v :=
    (h.expr he).bind fun f s₁ _ hf => .pure ⟨hf, fun _ hv => by cases hv⟩
  have hreceiver : ∀ {s : State} {v w : Value}, D.value s v → w ∈ some v → D.value s w := by
    intro s v w hv hw
    cases hw
    exact hv
  obtain ⟨span, kind⟩ := e
  rw [Expr.isScoped] at he
  cases kind with
  | member object property =>
    rw [ExprKind.isScoped] at he
    refine (h.expr he).bind fun receiver s₁ _ hr => ?_
    exact (Agree.readMember hr property).bind fun f s₂ hgrows hf =>
      .pure ⟨hf, fun v hv => hreceiver (hgrows.sound hr) hv⟩
  | index object key =>
    rw [ExprKind.isScoped, Bool.and_eq_true] at he
    refine (h.expr he.1).bind fun receiver s₁ _ hr => ?_
    refine (h.expr he.2).bind fun key s₂ hgrows _ => ?_
    exact (Agree.readIndex (hgrows.sound hr) key).bind fun f s₃ hgrows' hf =>
      .pure ⟨hf, fun v hv => hreceiver ((hgrows.trans hgrows').sound hr) hv⟩
  | _ => exact hplain

theorem callExpr (h : D.Alike ev ev') {e : Expr} {args : List Expr}
    (he : e.isScoped D.bodies = true) (hargs : Expr.areScoped D.bodies args = true) :
    D.Agree s (Rule.callExpr D.ctx ev e args) (Rule.callExpr D.ctx ev' e args) D.value := by
  refine (h.callee he).bind fun target s₁ _ htarget => ?_
  refine (h.exprs hargs).bind fun values s₂ hgrows hvalues => ?_
  split
  · exact h.call (hgrows.sound htarget.1) hvalues fun v hv => hgrows.sound (htarget.2 v hv)
  · exact Agree.raise rfl

/-! ## Expressions -/

theorem unary (h : D.Alike ev ev') (op : UnaryOp) {operand : Expr}
    (he : operand.isScoped D.bodies = true) :
    D.Agree s (Rule.unary D.ctx ev op operand) (Rule.unary D.ctx ev' op operand) D.value := by
  have hoperand : D.Agree s (ev.expr operand >>= fun v => Eval.ofExcept (Value.applyUnary op v))
      (ev'.expr operand >>= fun v => Eval.ofExcept (Value.applyUnary op v)) D.value :=
    (h.expr he).bind fun v s₁ _ _ => Agree.ofPrimitive (Value.applyUnary_plain op v)
  rcases Rule.unary_cases D.ctx op operand with hrule | ⟨name, hrule⟩
  · rw [hrule, hrule]
    exact hoperand
  · rw [hrule, hrule]
    intro hs
    dsimp only
    split
    · exact ⟨Or.inl rfl, .ok (.refl s) hs (Store.sound_string _)⟩
    · exact hoperand hs

theorem binary (h : D.Alike ev ev') (op : BinaryOp) {left right : Expr}
    (hl : left.isScoped D.bodies = true) (hr : right.isScoped D.bodies = true) :
    D.Agree s (Rule.binary ev op left right) (Rule.binary ev' op left right) D.value := by
  refine (h.expr hl).bind fun l s₁ _ _ => ?_
  refine (h.expr hr).bind fun r s₂ _ _ => ?_
  exact Agree.ofPrimitive (Value.applyBinary_plain s₂.store op l r)

theorem logical (h : D.Alike ev ev') (op : LogicalOp) {left right : Expr}
    (hl : left.isScoped D.bodies = true) (hr : right.isScoped D.bodies = true) :
    D.Agree s (Rule.logical ev op left right) (Rule.logical ev' op left right) D.value := by
  refine (h.expr hl).bind fun l s₁ _ hv => ?_
  split
  · exact .pure hv
  · exact h.expr hr

theorem conditional (h : D.Alike ev ev') {test consequent alternate : Expr}
    (ht : test.isScoped D.bodies = true) (hc : consequent.isScoped D.bodies = true)
    (ha : alternate.isScoped D.bodies = true) :
    D.Agree s (Rule.conditional ev test consequent alternate)
      (Rule.conditional ev' test consequent alternate) D.value := by
  refine (h.expr ht).bind fun v s₁ _ _ => ?_
  split
  · exact h.expr hc
  · exact h.expr ha

theorem list (h : D.Alike ev ev') {items : List Expr}
    (hitems : Expr.areScoped D.bodies items = true) :
    D.Agree s (Rule.list ev items) (Rule.list ev' items) D.value := by
  refine (h.exprs hitems).bind fun values s₁ _ hvalues => ?_
  have hall : ∀ v ∈ values.toArray, s₁.store.Sound D.bodies v :=
    fun v hv => hvalues v (List.mem_toArray.1 hv)
  exact Agree.allocate (fun _ => Store.grows_newList hall) fun _ => Store.sound_newList hall

theorem record (h : D.Alike ev ev') {entries : List (String × Expr)}
    (hentries : Expr.entriesScoped D.bodies entries = true) :
    D.Agree s (Rule.record ev entries) (Rule.record ev' entries) D.value := by
  refine (h.entries hentries).bind fun values s₁ _ hvalues => ?_
  have hall := OrderedMap.forall_ofEntries hvalues
  exact Agree.allocate (fun _ => Store.grows_newRecord hall) fun _ => Store.sound_newRecord hall

theorem member (h : D.Alike ev ev') {object : Expr} (ho : object.isScoped D.bodies = true)
    (property : String) :
    D.Agree s (Rule.member D.ctx ev object property) (Rule.member D.ctx ev' object property)
      D.value :=
  (h.expr ho).bind fun _ _ _ hv => Agree.readMember hv property

theorem index (h : D.Alike ev ev') {object key : Expr} (ho : object.isScoped D.bodies = true)
    (hk : key.isScoped D.bodies = true) :
    D.Agree s (Rule.index D.ctx ev object key) (Rule.index D.ctx ev' object key) D.value := by
  refine (h.expr ho).bind fun v s₁ _ hv => ?_
  exact (h.expr hk).bind fun k s₂ hgrows _ => Agree.readIndex (hgrows.sound hv) k

theorem exprKind (h : D.Alike ev ev') {kind : ExprKind}
    (hkind : kind.isScoped D.bodies = true) :
    D.Agree s (Rule.exprKind D.ctx ev kind) (Rule.exprKind D.ctx ev' kind) D.value := by
  cases kind <;> simp only [ExprKind.isScoped, Bool.and_eq_true] at hkind
  case literal value => exact .pure (by cases value <;> exact Store.sound_of_isPrimitive rfl)
  case ident name => exact Agree.ident name
  case this => exact Agree.this
  case list items => exact h.list hkind
  case record entries => exact h.record hkind
  case function name params body => exact Agree.function name params hkind
  case unary op operand => exact h.unary op hkind
  case update op first target => exact Agree.update op first target
  case binary op left right => exact h.binary op hkind.1 hkind.2
  case logical op left right => exact h.logical op hkind.1 hkind.2
  case conditional test consequent alternate =>
    exact h.conditional hkind.1.1 hkind.1.2 hkind.2
  case assign op target value => exact h.assign op hkind.1 hkind.2
  case member object property => exact h.member hkind property
  case index object key => exact h.index hkind.1 hkind.2
  case call e args => exact h.callExpr hkind.1 hkind.2
  case importModule source => exact h.importModule hkind

theorem exprRule (h : D.Alike ev ev') {e : Expr} (he : e.isScoped D.bodies = true) :
    D.Agree s (Rule.expr D.ctx ev e) (Rule.expr D.ctx ev' e) D.value := by
  obtain ⟨span, kind⟩ := e
  rw [Expr.isScoped] at he
  exact Agree.unlessInterrupted fun _ => (h.exprKind he).locating span

end Alike

end Setting

end ReactiveScript
