import ReactiveScript.Interpreter
import ReactiveScript.Proofs.Congruence.Expression

/-!
# Positions of failures

A failure starts without a position, and takes that of the innermost node around it whose position
is known. Two statements do not leave it at that: a declaration that is refused, and a function
declaration without a name, give their own position to the failure even if it is unknown, and no
node around them can replace it. Everywhere else positions are known as soon as they are there: the
failures of every evaluation are *placed*.
-/

namespace ReactiveScript

/-! ## Failures -/

/-- Whether a cause is the refusal of a declaration. -/
def Cause.isRefusedDeclaration : Cause → Bool
  | .binding (.duplicate _) => true
  | .typeMismatch message => message == "function declaration needs a name"
  | _ => false

namespace Failure

/-- Whether a position is the right one, if there is one: it is known, unless the failure is a
refused declaration. -/
def Placed : Failure → Prop
  | raised cause (some span) => span.isKnown = true ∨ cause.isRefusedDeclaration = true
  | raised _ none => True
  | interrupted => True

/-- Whether there is a position, and the right one. An interruption needs none. -/
def Located : Failure → Prop
  | raised cause (some span) => span.isKnown = true ∨ cause.isRefusedDeclaration = true
  | raised _ none => False
  | interrupted => True

variable {failure : Failure} {span : Span}

theorem placed_of (cause : Cause) : (Failure.of cause).Placed := trivial

theorem placed_interrupted : interrupted.Placed := trivial

theorem Placed.withSpan_of_isKnown (h : failure.Placed) (hspan : span.isKnown = true) :
    (failure.withSpan span).Located := by
  cases failure with
  | raised cause old =>
    cases old with
    | none => exact .inl hspan
    | some old => exact h
  | interrupted => trivial

theorem Located.placed (h : failure.Located) : failure.Placed := by
  cases failure with
  | raised cause span =>
    cases span with
    | none => trivial
    | some span => exact h
  | interrupted => trivial

/-- A node whose position is known locates all failures inside of it. -/
theorem Placed.located (h : failure.Placed) (hspan : span.isKnown = true) :
    (failure.locate span).Located := by
  unfold locate
  rw [if_pos hspan]
  exact h.withSpan_of_isKnown hspan

theorem Placed.locate (h : failure.Placed) (span : Span) : (failure.locate span).Placed := by
  by_cases hspan : span.isKnown = true
  · exact (h.located hspan).placed
  · unfold Failure.locate
    rw [if_neg hspan]
    exact h

end Failure

/-! ## Outcomes -/

/-- Whether an outcome is a failure with one property, or a value with another one. -/
def Outcome.Ends {α : Type} (P : Failure → Prop) (Q : α → Prop) :
    Outcome State Failure α → Prop
  | .ok a _ => Q a
  | .error failure _ => P failure
  | .exhausted => True

/-- Whether a result that was kept is a failure with one property, or a value with another one. -/
def Keeps {α : Type} (P : Failure → Prop) (Q : α → Prop) : Except Failure α → Prop
  | .ok a => Q a
  | .error failure => P failure

namespace Outcome.Ends

variable {α : Type} {P P' : Failure → Prop} {Q : α → Prop} {o : Outcome State Failure α}

theorem mapState (h : o.Ends P Q) (f : State → State) : (o.mapState f).Ends P Q := by
  cases o <;> exact h

theorem mapError {f : Failure → Failure} (h : o.Ends P Q) (hf : ∀ e, P e → P' (f e)) :
    (o.mapError f).Ends P' Q := by
  cases o with
  | ok a s => exact h
  | error failure s => exact hf failure h
  | exhausted => trivial

end Outcome.Ends

namespace Eval

variable {α β : Type}

/-- All failures of an evaluation have one property, and all its values have another one. -/
def Ends (P : Failure → Prop) (Q : α → Prop) (m : Eval α) : Prop := ∀ s, (m s).Ends P Q

/-- All failures of an evaluation are placed. -/
def Places (m : Eval α) : Prop := m.Ends Failure.Placed fun _ => True

namespace Ends

variable {P P' : Failure → Prop} {Q : α → Prop} {Q' : β → Prop} {m : Eval α}

protected theorem bind {f : α → Eval β} (hm : m.Ends P Q) (hf : ∀ a, Q a → (f a).Ends P Q') :
    (m >>= f).Ends P Q' := by
  intro s
  have h := hm s
  rw [bind_apply]
  cases hs : m s with
  | ok a s' =>
    rw [hs] at h
    exact hf a h s'
  | error failure s' =>
    rw [hs] at h
    exact h
  | exhausted => trivial

theorem mapError {f : Failure → Failure} (hm : m.Ends P Q) (hf : ∀ e, P e → P' (f e)) :
    Ends P' Q fun s => (m s).mapError f :=
  fun s => (hm s).mapError hf

theorem inBlock (hm : m.Ends P Q) : (Eval.inBlock m).Ends P Q :=
  fun s => (hm { s with env := s.env.pushBlock }).mapState _

theorem unlessInterrupted (hm : m.Ends P Q) (hP : P .interrupted) :
    Ends P Q fun s => if s.interrupted then .error .interrupted s else m s := by
  intro s
  dsimp only
  split
  · exact hP
  · exact hm s

/-- A result that is kept says how the evaluation ended. -/
theorem attempt (hm : m.Ends P Q) : m.attempt.Ends P' (Keeps P Q) := by
  intro s
  have h := hm s
  unfold Eval.attempt
  cases hs : m s with
  | ok a s' =>
    rw [hs] at h
    exact h
  | error failure s' =>
    rw [hs] at h
    exact h
  | exhausted => trivial

theorem ofResult {result : Except Failure α} (h : Keeps P Q result) :
    (Eval.ofResult result).Ends P Q := by
  cases result with
  | ok a => exact fun _ => h
  | error failure => exact fun _ => h

end Ends

namespace Places

variable {m : Eval α}

protected theorem pure (a : α) : (pure a : Eval α).Places := fun _ => trivial

protected theorem bind {f : α → Eval β} (hm : m.Places) (hf : ∀ a, (f a).Places) :
    (m >>= f).Places :=
  Ends.bind hm fun a _ => hf a

theorem raise (cause : Cause) : (Eval.raise cause : Eval α).Places := fun _ => trivial

theorem ofExcept (x : Except Cause α) : (Eval.ofExcept x).Places := by
  cases x with
  | ok a => exact Places.pure a
  | error cause => exact raise cause

/-- An evaluation that reads the state first. -/
theorem reading {γ : Type} (g : State → γ) {f : γ → Eval α} (h : ∀ x, (f x).Places) :
    Places fun s => f (g s) s :=
  fun s => h (g s) s

theorem locating (hm : m.Places) (span : Span) : (Eval.locating span m).Places :=
  Ends.mapError hm fun _ h => h.locate span

theorem unlessInterrupted (hm : m.Places) :
    Places fun s => if s.interrupted then .error .interrupted s else m s :=
  Ends.unlessInterrupted hm Failure.placed_interrupted

theorem checkInterrupt : Eval.checkInterrupt.Places := unlessInterrupted (Places.pure ())

theorem store : Eval.store.Places := fun _ => trivial

theorem modifyEnv (f : Environment → Environment) : (Eval.modifyEnv f).Places := fun _ => trivial

theorem allocate (f : Store → Value × Store) : (Eval.allocate f).Places := fun _ => trivial

theorem emit (event : Event) : (Eval.emit event).Places := fun _ => trivial

theorem emitIf (trace : Bool) (event : Event) : (Eval.emitIf trace event).Places := by
  unfold Eval.emitIf
  split
  · exact emit event
  · exact Places.pure ()

theorem tryEnv (f : Environment → Except BindingError Environment) : (Eval.tryEnv f).Places := by
  intro s
  unfold Eval.tryEnv
  split <;> trivial

theorem tryWrite (plan : Store → Except Cause Store.Write) : (Eval.tryWrite plan).Places := by
  intro s
  unfold Eval.tryWrite
  split <;> trivial

theorem hostCall (name : String) (f : Store → Reply) : (Eval.hostCall name f).Places := by
  intro s
  unfold Eval.hostCall
  dsimp only
  split <;> trivial

theorem inCall (hm : m.Places) (f : Function) (self : Value) : (Eval.inCall f self m).Places := by
  intro s
  unfold Eval.inCall
  split
  · rename_i e _
    exact Failure.placed_of (.binding e)
  · exact (hm _).mapState _

/-- What follows a round of a loop. -/
theorem continuing {rest : Eval Completion} (h : rest.Places) (next : Round) :
    (Eval.continuing rest next).Places := by
  cases next with
  | again => exact h
  | finish completion => exact Places.pure completion

theorem repeating {round : Eval Round} (h : round.Places) (fuel : Nat) :
    (Eval.repeating round fuel).Places := by
  induction fuel with
  | zero => exact fun _ => trivial
  | succ fuel ih =>
    rw [repeating_succ]
    exact h.bind fun next => continuing ih next

theorem forEach {round : Value → Eval Round} (h : ∀ item, (round item).Places)
    (items : List Value) : (Eval.forEach round items).Places := by
  induction items with
  | nil => exact Places.pure _
  | cons item items ih =>
    rw [forEach_cons]
    exact (h item).bind fun next => continuing ih next

end Places

end Eval

/-- An evaluator all of whose failures are placed. -/
structure Evaluator.Places (ev : Evaluator) : Prop where
  expr (e : Expr) : (ev.expr e).Places
  stmt (st : Stmt) : (ev.stmt st).Places
  block (body : List Stmt) : (ev.block body).Places
  call (f : Value) (args : List Value) (receiver : Option Value) : (ev.call f args receiver).Places

open Eval (Places)

/-! ## Rules without parts -/

namespace Rule

variable (ctx : Context)

theorem places_ident (name : String) : (ident ctx name).Places := by
  rw [ident_eq]
  exact .reading (fun s => lookup? ctx s.env name) fun v =>
    .ofExcept (v.elim (.error (.unknownIdentifier name)) .ok)

theorem places_assignVariable (name : String) (v : Value) : (assignVariable name v).Places := by
  intro s
  unfold assignVariable
  split <;> trivial

theorem places_readMember (object : Value) (property : String) :
    (readMember ctx object property).Places :=
  .reading (fun s => s.store) fun st => .ofExcept (Value.getMember ctx.library st object property)

theorem places_readIndex (object key : Value) : (readIndex ctx object key).Places :=
  .reading (fun s => s.store) fun st => .ofExcept (Value.getIndex ctx.library st object key)

theorem places_update (op : UpdateOp) (first : Bool) (target : Expr) :
    (update ctx op first target).Places := by
  unfold update
  split
  · rename_i name _
    refine (places_ident ctx name).bind fun old => ?_
    split
    · exact (places_assignVariable name _).bind fun _ => .pure _
    · exact .raise _
  · exact .raise _

theorem places_loadModule (path : String) : (loadModule ctx path).Places := by
  unfold loadModule
  split
  · exact .raise _
  · refine (Places.emit _).bind fun _ => ?_
    split
    · exact .pure _
    · exact .raise _

theorem places_importValue (source : String) (exports : Exports) (specifier : ImportSpecifier) :
    (importValue source exports specifier).Places := by
  cases specifier with
  | named imported localName =>
    simp only [importValue]
    split
    · exact .pure _
    · exact .raise _
  | everything localName => exact .allocate fun st => st.newRecord (OrderedMap.ofEntries exports)

/-- An import that is refused has no position of its own, unlike other declarations. -/
theorem places_bindImports (span : Span) (source : String) (exports : Exports)
    (specifiers : List ImportSpecifier) : (bindImports span source exports specifiers).Places := by
  induction specifiers with
  | nil => exact .pure _
  | cons specifier specifiers ih =>
    refine (places_importValue source exports specifier).bind fun v => ?_
    exact (Places.tryEnv _).bind fun _ => ih

theorem places_importNames (span : Span) (specifiers : List ImportSpecifier) (source : String) :
    (importNames ctx span specifiers source).Places :=
  (places_loadModule ctx source).bind fun exports => places_bindImports span source exports _

theorem places_callResult (completion : Completion) : (callResult completion).Places := by
  unfold callResult
  split
  · exact .raise _
  · split <;> exact .pure _

theorem places_callBuiltin (ref : Ref) (args : List Value) :
    (callBuiltin ctx ref args).Places := by
  rw [callBuiltin_eq]
  refine Places.store.bind fun st => ?_
  split
  · split
    · exact .hostCall _ _
    · exact .raise _
  · exact .hostCall _ _

theorem places_callMethod (ref : Ref) (method : String) (args : List Value) :
    (callMethod ctx ref method args).Places :=
  fun s => Places.hostCall _ _ s

theorem places_function (name : Option String) (params : List String) (body : List Stmt) :
    (function name params body).Places :=
  .reading (fun s => s.env.capture) fun closure =>
    .allocate (·.newFunction ⟨name, params, body, closure⟩)

/-- A function declaration without a name gives its own position, known or not. -/
theorem places_declareFunction (span : Span) (name : Option String) (params : List String)
    (body : List Stmt) : (declareFunction ctx span name params body).Places := by
  cases name with
  | none => exact fun _ => .inr rfl
  | some f =>
    refine (places_function (some f) params body).bind fun v => ?_
    refine (Places.tryEnv _).bind fun _ => ?_
    exact (Places.emitIf _ _).bind fun _ => .pure _

/-- The only refusal of a declaration is that of a name declared before, so its failure keeps the
position that it is given, known or not. -/
theorem places_declareOne (mode : Mode) (name : String) (v : Value) (span : Span) :
    Places fun s => (Eval.tryEnv (fun env => env.declare mode name v (some span)) s).mapError
      (·.withSpan span) := by
  intro s
  unfold Eval.tryEnv
  dsimp only
  cases hd : s.env.declare mode name v (some span) with
  | ok env => trivial
  | error e =>
    have he : e = .duplicate name := by
      unfold Environment.declare at hd
      dsimp only at hd
      split at hd
      · cases hd
        rfl
      · cases hd
    rw [he]
    exact .inr rfl

end Rule

namespace Evaluator.Places

variable {ctx : Context} {ev : Evaluator}

/-! ## Lists of phrases -/

theorem exprs (h : ev.Places) (es : List Expr) : (ev.exprs es).Places := by
  induction es with
  | nil => exact .pure _
  | cons e es ih => exact (h.expr e).bind fun v => ih.bind fun vs => .pure _

theorem entries (h : ev.Places) (es : List (String × Expr)) : (ev.entries es).Places := by
  induction es with
  | nil => exact .pure _
  | cons e es ih => exact (h.expr e.2).bind fun v => ih.bind fun vs => .pure _

theorem step (h : ev.Places) (last : Value) (st : Stmt) : (ev.step last st).Places := by
  unfold Evaluator.step
  split
  · rename_i span test body
    refine Eval.Places.checkInterrupt.bind fun _ => ?_
    refine ((h.expr test).locating span).bind fun guard => ?_
    split
    · exact (h.block body).bind fun _ => .pure _
    · exact .pure _
  · refine (h.stmt _).bind fun completion => ?_
    split <;> exact .pure _

theorem stmtsFrom (h : ev.Places) (last : Value) (body : List Stmt) :
    (ev.stmtsFrom last body).Places := by
  induction body generalizing last with
  | nil => exact .pure _
  | cons st body ih =>
    rw [Evaluator.stmtsFrom_cons]
    refine (h.step last st).bind fun next => ?_
    cases next with
    | next last => exact ih last
    | leave completion => exact .pure _

theorem stmts (h : ev.Places) (body : List Stmt) : (ev.stmts body).Places :=
  h.stmtsFrom .null body

/-! ## Expressions -/

theorem newValue (h : ev.Places) (op : Option BinaryOp) {old : Eval Value} (hold : old.Places)
    (e : Expr) : (Rule.newValue ev op old e).Places := by
  cases op with
  | none => exact h.expr e
  | some op =>
    refine hold.bind fun current => ?_
    refine (h.expr e).bind fun rhs => ?_
    exact Eval.Places.store.bind fun st => .ofExcept _

theorem assign (h : ev.Places) (op : Option BinaryOp) (target e : Expr) :
    (Rule.assign ctx ev op target e).Places := by
  unfold Rule.assign
  split
  · rename_i name _
    refine (h.newValue op (Rule.places_ident ctx name) e).bind fun v => ?_
    exact (Rule.places_assignVariable name v).bind fun _ => .pure _
  · rename_i object property _
    refine (h.expr object).bind fun object => ?_
    refine (h.newValue op (Rule.places_readMember ctx object property) e).bind fun v => ?_
    exact (Eval.Places.tryWrite _).bind fun _ => .pure _
  · rename_i object key _
    refine (h.expr object).bind fun object => ?_
    refine (h.expr key).bind fun key => ?_
    refine (h.newValue op (Rule.places_readIndex ctx object key) e).bind fun v => ?_
    exact (Eval.Places.tryWrite _).bind fun _ => .pure _
  · exact .raise _

theorem importModule (h : ev.Places) (source : Expr) :
    (Rule.importModule ctx ev source).Places := by
  refine (h.expr source).bind fun path => ?_
  refine Eval.Places.store.bind fun st => ?_
  exact (Rule.places_loadModule ctx _).bind fun exports => .allocate _

theorem callBody (h : ev.Places) (f : Function) (args : List Value) (receiver : Option Value) :
    (Rule.callBody ctx ev f args receiver).Places := by
  have hcall : Eval.Places fun s =>
      Eval.emitIf ctx.trace (.call f.displayName s.env.callDepth) s :=
    .reading (fun s => s.env.callDepth) fun depth => .emitIf ctx.trace (.call f.displayName depth)
  rw [Rule.callBody_eq]
  refine hcall.bind fun _ => ?_
  refine (Eval.Places.modifyEnv _).bind fun _ => ?_
  exact (h.stmts f.body).bind fun completion => Rule.places_callResult completion

/-- A body has no position of its own: a failure in it takes that of the call if no node of the body
has one. -/
theorem callRule (h : ev.Places) (f : Value) (args : List Value) (receiver : Option Value) :
    (Rule.call ctx ev f args receiver).Places := by
  unfold Rule.call
  split
  · rename_i ref
    exact .reading (fun s => s.store.function ref) fun f =>
      (h.callBody f args receiver).inCall f (.function ref)
  · exact Rule.places_callBuiltin ctx _ args
  · exact Rule.places_callMethod ctx _ _ args
  · exact .raise _

theorem callee (h : ev.Places) (e : Expr) : (Rule.callee ctx ev e).Places := by
  unfold Rule.callee
  split
  · rename_i object property _
    refine (h.expr object).bind fun receiver => ?_
    exact (Rule.places_readMember ctx receiver property).bind fun f => .pure _
  · rename_i object key _
    refine (h.expr object).bind fun receiver => ?_
    refine (h.expr key).bind fun key => ?_
    exact (Rule.places_readIndex ctx receiver key).bind fun f => .pure _
  · exact (h.expr e).bind fun f => .pure _

theorem callExpr (h : ev.Places) (e : Expr) (args : List Expr) :
    (Rule.callExpr ctx ev e args).Places := by
  refine (h.callee e).bind fun target => ?_
  refine (h.exprs args).bind fun values => ?_
  split
  · exact h.call target.1 values target.2
  · exact .raise _

theorem unary (h : ev.Places) (op : UnaryOp) (operand : Expr) :
    (Rule.unary ctx ev op operand).Places := by
  have hoperand : (ev.expr operand >>= fun v => Eval.ofExcept (Value.applyUnary op v)).Places :=
    (h.expr operand).bind fun v => .ofExcept _
  have hnamed : ∀ v : Option Value, Eval.Places fun s =>
      if v.isNone then .ok (.string "undefined") s
        else (ev.expr operand >>= fun v => Eval.ofExcept (Value.applyUnary op v)) s := by
    intro v
    cases v with
    | none => exact .pure _
    | some v => exact hoperand
  cases op with
  | typeOf =>
    obtain ⟨span, kind⟩ := operand
    cases kind with
    | ident name => exact .reading (fun s => Rule.lookup? ctx s.env name) hnamed
    | _ => exact hoperand
  | _ => exact hoperand

theorem binary (h : ev.Places) (op : BinaryOp) (left right : Expr) :
    (Rule.binary ev op left right).Places := by
  refine (h.expr left).bind fun l => ?_
  refine (h.expr right).bind fun r => ?_
  exact .reading (fun s => s.store) fun st => .ofExcept (Value.applyBinary st op l r)

theorem logical (h : ev.Places) (op : LogicalOp) (left right : Expr) :
    (Rule.logical ev op left right).Places := by
  refine (h.expr left).bind fun l => ?_
  split
  · exact .pure _
  · exact h.expr right

theorem conditional (h : ev.Places) (test consequent alternate : Expr) :
    (Rule.conditional ev test consequent alternate).Places := by
  refine (h.expr test).bind fun v => ?_
  split
  · exact h.expr consequent
  · exact h.expr alternate

theorem exprKind (h : ev.Places) (kind : ExprKind) : (Rule.exprKind ctx ev kind).Places := by
  cases kind with
  | literal value => exact .pure _
  | ident name => exact Rule.places_ident ctx name
  | this => exact fun _ => trivial
  | list items => exact (h.exprs items).bind fun _ => .allocate _
  | record entries => exact (h.entries entries).bind fun _ => .allocate _
  | function name params body => exact Rule.places_function name params body
  | unary op operand => exact h.unary op operand
  | update op first target => exact Rule.places_update ctx op first target
  | binary op left right => exact h.binary op left right
  | logical op left right => exact h.logical op left right
  | conditional test consequent alternate => exact h.conditional test consequent alternate
  | assign op target value => exact h.assign op target value
  | member object property =>
    exact (h.expr object).bind fun v => Rule.places_readMember ctx v property
  | index object key =>
    exact (h.expr object).bind fun v => (h.expr key).bind fun k => Rule.places_readIndex ctx v k
  | call e args => exact h.callExpr e args
  | importModule source => exact h.importModule source

/-! ## Loops -/

theorem loopBody (h : ev.Places) (body : Stmt) : (Rule.loopBody ev body).Places :=
  (h.stmt body).bind fun _ => .pure _

theorem whileTrue (h : ev.Places) (test : Expr) {continuing : Eval Eval.Round}
    (hc : continuing.Places) : (Rule.whileTrue ev test continuing).Places := by
  refine (h.expr test).bind fun v => ?_
  split
  · exact hc
  · exact .pure _

theorem bodyThen (h : ev.Places) (body : Stmt) {continuing : Eval Eval.Round}
    (hc : continuing.Places) : (Rule.bodyThen ev body continuing).Places := by
  refine (h.loopBody body).bind fun round => ?_
  cases round with
  | again => exact hc
  | finish completion => exact .pure _

theorem whileLoop (h : ev.Places) (test : Expr) (body : Stmt) :
    (Rule.whileLoop ev test body).Places :=
  .repeating (Eval.Places.checkInterrupt.bind fun _ => h.whileTrue test (h.loopBody body)) _

theorem doWhile (h : ev.Places) (body : Stmt) (test : Expr) :
    (Rule.doWhile ev body test).Places := by
  refine .repeating (Eval.Places.checkInterrupt.bind fun _ => ?_) _
  exact h.bodyThen body (h.whileTrue test (.pure _))

theorem forUpdate (h : ev.Places) (update : Option Expr) : (Rule.forUpdate ev update).Places := by
  cases update with
  | none => exact .pure _
  | some e => exact (h.expr e).bind fun _ => .pure _

theorem forRound (h : ev.Places) (test update : Option Expr) (body : Stmt) :
    (Rule.forRound ev test update body).Places := by
  have hbody := h.bodyThen body (h.forUpdate update)
  refine Eval.Places.checkInterrupt.bind fun _ => ?_
  cases test with
  | none => exact hbody
  | some test => exact h.whileTrue test hbody

theorem forLoop (h : ev.Places) (init : Option Stmt) (test update : Option Expr) (body : Stmt) :
    (Rule.forLoop ev init test update body).Places := by
  have hloop := (h.forRound test update body).repeating ev.rounds
  refine Eval.Ends.inBlock ?_
  cases init with
  | none => exact hloop
  | some init => exact (h.stmt init).bind fun _ => hloop

theorem itemRound (h : ev.Places) (binding : LoopBinding) (body : Stmt) (item : Value) :
    (Rule.itemRound ev binding body item).Places := by
  have hitem : (Rule.bindItem binding item).Places := by
    unfold Rule.bindItem
    split
    · exact .modifyEnv _
    · exact Rule.places_assignVariable _ _
  refine Eval.Places.checkInterrupt.bind fun _ => ?_
  exact hitem.bind fun _ => h.loopBody body

theorem iterate (h : ev.Places) (binding : LoopBinding) (items : List Value) (body : Stmt) :
    (Rule.iterate ev binding items body).Places := by
  have hloop := Eval.Places.forEach (h.itemRound binding body) items
  refine Eval.Ends.inBlock ?_
  split
  · exact (Eval.Places.modifyEnv _).bind fun _ => hloop
  · exact hloop

theorem forIn (h : ev.Places) (binding : LoopBinding) (object : Expr) (body : Stmt) :
    (Rule.forIn ctx ev binding object body).Places := by
  refine (h.expr object).bind fun v => ?_
  exact Eval.Places.store.bind fun st => h.iterate binding _ body

theorem forOf (h : ev.Places) (binding : LoopBinding) (iterable : Expr) (body : Stmt) :
    (Rule.forOf ctx ev binding iterable body).Places := by
  refine (h.expr iterable).bind fun v => ?_
  refine Eval.Places.store.bind fun st => ?_
  exact (Eval.Places.ofExcept _).bind fun items => h.iterate binding items body

/-! ## Statements -/

theorem initial (h : ev.Places) (init : Option Expr) : (Rule.initial ev init).Places := by
  cases init with
  | none => exact .pure _
  | some e => exact h.expr e

theorem declarators (h : ev.Places) (mode : Mode) (span : Span)
    (ds : List (String × Option Expr)) : (Rule.declare ev mode span ds).Places := by
  induction ds with
  | nil => exact .pure _
  | cons d ds ih =>
    refine (h.initial d.2).bind fun v => ?_
    exact (Rule.places_declareOne mode d.1 v span).bind fun _ => ih

theorem ifElse (h : ev.Places) (test : Expr) (consequent : Stmt) (alternate : Option Stmt) :
    (Rule.ifElse ev test consequent alternate).Places := by
  refine (h.expr test).bind fun v => ?_
  split
  · exact h.stmt consequent
  · cases alternate with
    | none => exact .pure _
    | some st => exact h.stmt st

theorem whenGuard (h : ev.Places) (test : Expr) (body : List Stmt) :
    (Rule.whenGuard ev test body).Places := by
  refine (h.expr test).bind fun v => ?_
  split
  · exact h.block body
  · exact .pure _

theorem fallThrough (h : ev.Places) (cases : List (Option Expr × List Stmt)) :
    (Rule.fallThrough ev cases).Places := by
  induction cases with
  | nil => exact .pure _
  | cons c cases ih =>
    refine (h.stmts c.2).bind fun completion => ?_
    cases completion with
    | normal v => exact ih
    | broke => exact .pure _
    | continued => exact .pure _
    | returned v => exact .pure _

theorem chooseCase (h : ev.Places) (v : Value) (cases : List (Option Expr × List Stmt)) :
    (Rule.chooseCase ev v cases).Places := by
  induction cases with
  | nil => exact .pure _
  | cons c cases ih =>
    obtain ⟨test, body⟩ := c
    cases test with
    | none => exact h.fallThrough ((none, body) :: cases)
    | some test =>
      refine (h.expr test).bind fun t => ?_
      split
      · exact h.fallThrough ((some test, body) :: cases)
      · exact ih

theorem catchClause (h : ev.Places) (param : Option String) (body : List Stmt) (thrown : Value) :
    (Rule.catchClause ev param body thrown).Places := by
  refine Eval.Ends.inBlock ?_
  cases param with
  | none => exact h.stmts body
  | some name => exact (Eval.Places.modifyEnv _).bind fun _ => h.stmts body

/-- What was caught is placed, and so is what comes in its stead. -/
theorem handled (h : ev.Places) {result : Except Failure Completion}
    (hresult : Keeps Failure.Placed (fun _ => True) result)
    (handler : Option (Option String × List Stmt)) :
    (Rule.handled ev result handler).Ends Failure.Placed
      (Keeps Failure.Placed fun _ => True) := by
  cases handler with
  | none => exact fun _ => hresult
  | some clause =>
    cases result with
    | ok completion => exact fun _ => hresult
    | error failure =>
      simp only [Rule.handled]
      split
      · refine Eval.Ends.bind (Eval.Places.emit _) fun _ _ => ?_
        exact Eval.Ends.attempt (h.catchClause clause.1 clause.2 failure.thrownValue)
      · exact fun _ => hresult

theorem finalized (h : ev.Places) (blockFailed : Bool) {outcome : Except Failure Completion}
    (houtcome : Keeps Failure.Placed (fun _ => True) outcome) (finalizer : Option (List Stmt)) :
    (Rule.finalized ev blockFailed outcome finalizer).Places := by
  have hkept : (Eval.ofResult outcome).Places := Eval.Ends.ofResult houtcome
  cases finalizer with
  | none => exact hkept
  | some body =>
    refine Eval.Ends.bind (Eval.Ends.attempt (h.block body)) fun result hresult => ?_
    cases result with
    | ok completion =>
      dsimp only
      split
      · exact Eval.Places.pure completion
      · exact hkept
    | error failure =>
      dsimp only
      split
      · exact (Eval.Places.emit _).bind fun _ => hkept
      · exact fun _ => hresult

theorem tryCatch (h : ev.Places) (block : List Stmt)
    (handler : Option (Option String × List Stmt)) (finalizer : Option (List Stmt)) :
    (Rule.tryCatch ev block handler finalizer).Places := by
  refine Eval.Ends.bind (Eval.Ends.attempt (h.block block)) fun result hresult => ?_
  refine Eval.Ends.bind (h.handled hresult handler) fun outcome houtcome => ?_
  exact h.finalized (Rule.isFailure result) houtcome finalizer

/-- A `throw` gives its position only if that is known. -/
theorem throwValue (h : ev.Places) (span : Span) (e : Expr) :
    (Rule.throwValue ev span e).Places := by
  refine (h.expr e).bind fun v => ?_
  refine Eval.Places.store.bind fun st => fun s => ?_
  by_cases hspan : span.isKnown = true
  · rw [if_pos hspan]
    exact .inl hspan
  · rw [if_neg hspan]
    trivial

theorem observe (h : ev.Places) (targets : List String) (handler : Expr) :
    (Rule.observe ev targets handler).Places := by
  refine (h.expr handler).bind fun v => ?_
  split
  · refine (Eval.Places.tryEnv _).bind fun _ => ?_
    exact (Eval.Places.emit _).bind fun _ => .pure _
  · exact .raise _

theorem stmtKind (h : ev.Places) (span : Span) (kind : StmtKind) :
    (Rule.stmtKind ctx ev span kind).Places := by
  cases kind with
  | expression e => exact (h.expr e).bind fun _ => .pure _
  | declare kind ds => exact h.declarators kind.mode span ds
  | function name params body => exact Rule.places_declareFunction ctx span name params body
  | block body => exact h.block body
  | ifElse test consequent alternate => exact h.ifElse test consequent alternate
  | whileLoop test body => exact h.whileLoop test body
  | doWhile body test => exact h.doWhile body test
  | forLoop init test update body => exact h.forLoop init test update body
  | forIn binding object body => exact h.forIn binding object body
  | forOf binding iterable body => exact h.forOf binding iterable body
  | switch discriminant cases =>
    exact (h.expr discriminant).bind fun v => Eval.Ends.inBlock (h.chooseCase v cases)
  | tryCatch block handler finalizer => exact h.tryCatch block handler finalizer
  | throw e => exact h.throwValue span e
  | ret e => exact (h.initial e).bind fun _ => .pure _
  | breakLoop => exact .pure _
  | continueLoop => exact .pure _
  | whenGuard test body => exact h.whenGuard test body
  | otherwise body => exact h.block body
  | observe targets handler => exact h.observe targets handler
  | importNames specifiers source => exact Rule.places_importNames ctx span specifiers source
  | exported st => exact (h.stmt st).bind fun completion => fun _ => trivial
  | empty => exact .pure _

/-- What a statement does, before its failures get its position. -/
theorem traced (ctx : Context) (h : ev.Places) (st : Stmt) :
    Eval.Places (do
      Eval.emitIf ctx.trace (.statement st.kind.name st.span)
      Rule.stmtKind ctx ev st.span st.kind) :=
  (Eval.Places.emitIf _ _).bind fun _ => h.stmtKind st.span st.kind

/-! ## Levels -/

/-- Applying the rules once keeps failures placed. -/
theorem next (h : ev.Places) : (Evaluator.next ctx ev).Places where
  expr e := ((h.exprKind e.kind).locating e.span).unlessInterrupted
  stmt st := ((h.traced ctx st).locating st.span).unlessInterrupted
  block body := Eval.Ends.inBlock (h.stmts body)
  call := h.callRule

end Evaluator.Places

/-- All failures of evaluations are placed. -/
theorem Evaluator.places_level (ctx : Context) (n : Nat) : (level ctx n).Places := by
  induction n with
  | zero => exact ⟨fun _ _ => trivial, fun _ _ => trivial, fun _ _ => trivial,
      fun _ _ _ _ => trivial⟩
  | succ n ih =>
    rw [level_succ]
    exact ih.next

end ReactiveScript
