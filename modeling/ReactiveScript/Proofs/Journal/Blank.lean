import ReactiveScript.Proofs.Journal.Statement

/-!
# Constructs that assign to no variable

An assignment to a variable, a counting expression and a loop over items that declares no variable
make entries of their own. Any other construct executes an assignment only if one of its parts does:
neither a declaration, nor the variable that a loop declares, nor a write to a member or an element,
nor a handler that is registered is an assignment.
-/

namespace ReactiveScript

/-- Whether an expression assigns to a variable by itself. -/
def ExprKind.assignsVariable : ExprKind → Bool
  | .assign _ target _ | .update _ _ target =>
    match target.kind with
    | .ident _ => true
    | _ => false
  | _ => false

/-- Whether a statement assigns to a variable by itself. -/
def StmtKind.assignsVariable : StmtKind → Bool
  | .forIn binding _ _ | .forOf binding _ _ => binding.kind.isNone
  | _ => false

namespace Journal

variable {α : Type} (ctx : Context) (ev : Evaluator)

theorem andThen_blank {m : Eval α} {k : α → Journal} (hk : ∀ a, k a = blank) :
    andThen m blank k = blank := by
  funext s
  unfold andThen
  cases m s with
  | ok a s' =>
    show k a s' = []
    rw [hk a]
    rfl
  | error | exhausted => rfl

theorem after_blank (m : Eval α) : (after m fun _ => blank) = blank := andThen_blank fun _ => rfl

theorem continuing_blank (next : Eval.Round) : continuing blank next = blank := by
  cases next <;> rfl

theorem repeating_blank (round : Eval Eval.Round) (fuel : Nat) :
    repeating round blank fuel = blank := by
  induction fuel with
  | zero => rfl
  | succ fuel ih =>
    unfold repeating
    rw [ih]
    exact andThen_blank continuing_blank

theorem forEach_blank (round : Value → Eval Eval.Round) (items : List Value) :
    forEach round (fun _ => blank) items = blank := by
  induction items with
  | nil => rfl
  | cons item items ih =>
    unfold forEach
    rw [ih]
    exact andThen_blank continuing_blank

theorem exprs_blank (es : List Expr) : exprs ev .blank es = blank := by
  induction es with
  | nil => rfl
  | cons e es ih => exact andThen_blank fun _ => ih

theorem entries_blank (es : List (String × Expr)) : entries ev .blank es = blank := by
  induction es with
  | nil => rfl
  | cons e es ih => exact andThen_blank fun _ => ih

theorem step_blank (st : Stmt) : step ev .blank st = blank := by
  obtain ⟨span, kind⟩ := st
  cases kind with
  | whenGuard test body => exact andThen_blank fun _ => andThen_blank fun _ => ite_self _
  | _ => rfl

theorem stmtsFrom_blank (last : Value) (body : List Stmt) :
    stmtsFrom ev .blank last body = blank := by
  induction body generalizing last with
  | nil => rfl
  | cons st body ih =>
    unfold stmtsFrom
    rw [step_blank]
    refine andThen_blank fun next => ?_
    cases next with
    | next last => exact ih last
    | leave completion => rfl

theorem fallThrough_blank (cases : List (Option Expr × List Stmt)) :
    fallThrough ev .blank cases = blank := by
  induction cases with
  | nil => rfl
  | cons c cases ih =>
    unfold fallThrough stmts
    rw [stmtsFrom_blank]
    refine andThen_blank fun completion => ?_
    cases completion with
    | normal v => exact ih
    | broke | continued | returned => rfl

theorem chooseCase_blank (v : Value) (cases : List (Option Expr × List Stmt)) :
    chooseCase ev .blank v cases = blank := by
  induction cases with
  | nil => rfl
  | cons c cases ih =>
    obtain ⟨test, body⟩ := c
    cases test with
    | none => exact fallThrough_blank ev ((none, body) :: cases)
    | some test =>
      unfold chooseCase
      rw [fallThrough_blank, ih]
      exact andThen_blank fun _ => ite_self _

theorem optional_blank (e : Option Expr) : optional .blank e = blank := by
  cases e <;> rfl

theorem declare_blank (mode : Mode) (span : Span) (ds : List (String × Option Expr)) :
    declare ev .blank mode span ds = blank := by
  induction ds with
  | nil => rfl
  | cons d ds ih =>
    obtain ⟨name, init⟩ := d
    unfold declare
    rw [optional_blank, ih]
    exact andThen_blank fun _ => andThen_blank fun _ => rfl

theorem newValue_blank (op : Option BinaryOp) (old : Eval Value) (e : Expr) :
    newValue .blank op old e = blank := by
  cases op with
  | none => rfl
  | some op => exact andThen_blank fun _ => rfl

theorem callee_blank (e : Expr) : callee ev .blank e = blank := by
  obtain ⟨span, kind⟩ := e
  cases kind with
  | index object key => exact andThen_blank fun _ => rfl
  | _ => rfl

/-- An expression that assigns to no variable executes no assignment if its parts do not. -/
theorem exprKind_blank {kind : ExprKind} (h : kind.assignsVariable = false) :
    exprKind ctx ev .blank kind = blank := by
  cases kind with
  | list items => exact exprs_blank ev items
  | record es => exact entries_blank ev es
  | unary op operand =>
    obtain ⟨span, kind⟩ := operand
    cases op with
    | typeOf =>
      cases kind with
      | ident name => exact funext fun _ => ite_self _
      | _ => rfl
    | _ => rfl
  | update op first target =>
    obtain ⟨span, kind⟩ := target
    cases kind with
    | ident name => cases h
    | _ => rfl
  | logical op left right => exact andThen_blank fun _ => ite_self _
  | conditional test consequent alternate => exact andThen_blank fun _ => ite_self _
  | assign op target e =>
    obtain ⟨span, kind⟩ := target
    cases kind with
    | ident name => cases h
    | member object property => exact andThen_blank fun _ => newValue_blank op _ e
    | index object key =>
      exact andThen_blank fun _ => andThen_blank fun _ => newValue_blank op _ e
    | _ => rfl
  | call e args =>
    show callExpr ctx ev .blank e args = blank
    unfold callExpr
    rw [callee_blank, exprs_blank]
    exact andThen_blank fun _ => andThen_blank fun _ => ite_self _
  | binary | index => exact andThen_blank fun _ => rfl
  | literal | ident | this | function | member | importModule => rfl

theorem whileTrue_blank (test : Expr) : whileTrue ev .blank test blank = blank :=
  andThen_blank fun _ => ite_self _

theorem bodyThen_blank (body : Stmt) : bodyThen ev .blank body blank = blank :=
  andThen_blank fun round => by cases round <;> rfl

theorem forLoop_blank (init : Option Stmt) (test update : Option Expr) (body : Stmt) :
    forLoop ev .blank init test update body = blank := by
  have hround : forRound ev .blank test update body = blank := by
    unfold forRound
    rw [optional_blank, bodyThen_blank]
    refine andThen_blank fun _ => ?_
    cases test with
    | none => rfl
    | some test => exact whileTrue_blank ev test
  unfold forLoop
  rw [hround, repeating_blank]
  cases init with
  | none => rfl
  | some init => exact congrArg inBlock (andThen_blank fun _ => rfl)

/-- The variable that a loop declares is not assigned to. -/
theorem iterate_blank {binding : LoopBinding} (h : binding.kind.isNone = false)
    (items : List Value) (body : Stmt) : iterate ev .blank binding items body = blank := by
  have hround : itemRound .blank binding body = fun _ => blank := by
    funext item
    refine andThen_blank fun _ => ?_
    unfold bindItem
    split
    · exact andThen_blank fun _ => rfl
    · rename_i hkind
      rw [hkind] at h
      cases h
  unfold iterate
  rw [hround, forEach_blank]
  cases binding.kind with
  | none => rfl
  | some kind => exact congrArg inBlock (andThen_blank fun _ => rfl)

theorem tryCatch_blank (body : List Stmt) (handler : Option (Option String × List Stmt))
    (finalizer : Option (List Stmt)) : tryCatch ev .blank body handler finalizer = blank := by
  have hclause : ∀ param body thrown, catchClause ev .blank param body thrown = blank := by
    intro param body thrown
    unfold catchClause stmts
    rw [stmtsFrom_blank]
    cases param with
    | none => rfl
    | some name => exact congrArg inBlock (andThen_blank fun _ => rfl)
  have hhandled : ∀ result, handled ev .blank result handler = blank := by
    intro result
    cases handler with
    | none => rfl
    | some clause =>
      cases result with
      | ok completion => rfl
      | error failure =>
        show (if failure.isCatchable then _ else blank) = blank
        rw [hclause, after_blank]
        exact ite_self _
  have hfinalized : finalized .blank finalizer = blank := by cases finalizer <;> rfl
  refine andThen_blank fun result => ?_
  rw [hhandled, hfinalized]
  exact andThen_blank fun _ => rfl

/-- A statement that assigns to no variable executes no assignment if its parts do not. -/
theorem stmtKind_blank {kind : StmtKind} (h : kind.assignsVariable = false) (span : Span) :
    stmtKind ctx ev .blank span kind = blank := by
  cases kind with
  | declare kind ds => exact declare_blank ev kind.mode span ds
  | ifElse test consequent alternate =>
    refine andThen_blank fun _ => ?_
    cases alternate <;> exact ite_self _
  | whileLoop test body =>
    show whileLoop ev .blank test body = blank
    unfold whileLoop
    rw [show (Journals.blank.stmt body) = blank from rfl, whileTrue_blank, after_blank]
    exact repeating_blank _ _
  | doWhile body test =>
    show doWhile ev .blank body test = blank
    unfold doWhile
    rw [show (Journals.blank.expr test) = blank from rfl, bodyThen_blank, after_blank]
    exact repeating_blank _ _
  | forLoop init test update body => exact forLoop_blank ev init test update body
  | forIn binding object body =>
    exact andThen_blank fun _ => andThen_blank fun _ => iterate_blank ev h _ body
  | forOf binding iterable body =>
    exact andThen_blank fun _ => andThen_blank fun _ => andThen_blank fun items =>
      iterate_blank ev h items body
  | switch discriminant cases =>
    exact andThen_blank fun v => congrArg inBlock (chooseCase_blank ev v cases)
  | tryCatch block handler finalizer => exact tryCatch_blank ev block handler finalizer
  | ret e => exact optional_blank e
  | whenGuard test body => exact andThen_blank fun _ => ite_self _
  | _ => rfl

/-- A call executes no assignment if the statements of its body do not: receiver, parameters and
what was captured are bound, which is not to assign. -/
theorem call_blank (f : Value) (args : List Value) (receiver : Option Value) :
    call ctx ev .blank f args receiver = blank := by
  cases f with
  | function ref =>
    have hbody : ∀ f, callBody ctx ev .blank f args receiver = blank := by
      intro f
      unfold callBody stmts
      rw [stmtsFrom_blank]
      exact andThen_blank fun _ => after_blank _
    funext s
    show inCall _ _ (callBody ctx ev .blank _ args receiver) s = []
    rw [hbody]
    unfold inCall
    split <;> rfl
  | _ => rfl

end Journal

namespace Journals.Kept

variable {ctx : Context} {ev : Evaluator}

theorem exprKind_blank (h : Journals.blank.Kept ev) {kind : ExprKind}
    (hkind : kind.assignsVariable = false) :
    (Rule.exprKind ctx ev kind).Executes .expression .blank := by
  rw [← Journal.exprKind_blank ctx ev hkind]
  exact h.exprKind kind

theorem stmtKind_blank (h : Journals.blank.Kept ev) {kind : StmtKind}
    (hkind : kind.assignsVariable = false) (span : Span) :
    (Rule.stmtKind ctx ev span kind).Executes .statement .blank := by
  rw [← Journal.stmtKind_blank ctx ev hkind span]
  exact h.stmtKind span kind

theorem call_blank (h : Journals.blank.Kept ev) (f : Value) (args : List Value)
    (receiver : Option Value) : (Rule.call ctx ev f args receiver).Executes .call .blank := by
  rw [← Journal.call_blank ctx ev f args receiver]
  exact h.callRule f args receiver

end Journals.Kept

end ReactiveScript
