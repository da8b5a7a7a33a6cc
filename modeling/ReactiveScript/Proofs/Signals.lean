import ReactiveScript.Eval.Basic

/-!
# Signals and scoping

A `break`, a `continue` or a `return` is a signal on its way to a loop, a switch or a call.
`Signals` are the kinds of signals that something may give off, and a phrase is *scoped* for signals
if no statement in it sends one that nothing around it expects. Loops expect a `break` and a
`continue` of their body, switches a `break` of their cases. Functions that are written in a phrase
have their own signals, whatever stands around them.
-/

namespace ReactiveScript

/-- Which signals may be on their way. -/
structure Signals where
  /-- Whether a `break` may. -/
  breaks : Bool
  /-- Whether a `continue` may. -/
  continues : Bool
  /-- Whether a `return` may. -/
  returns : Bool
  deriving DecidableEq, Repr

namespace Signals

/-- No signal, as at the top of a program. -/
def none : Signals := ⟨false, false, false⟩

/-- All signals. -/
def all : Signals := ⟨true, true, true⟩

/-- The signals that the body of a function may send. -/
def function : Signals := ⟨false, false, true⟩

/-- The signals that the body of a loop may send. -/
def inLoop (here : Signals) : Signals := { here with breaks := true, continues := true }

/-- The signals that a loop lets pass. -/
def afterLoop (here : Signals) : Signals := { here with breaks := false, continues := false }

/-- The signals that the cases of a switch may send. -/
def inSwitch (here : Signals) : Signals := { here with breaks := true }

/-- The signals that a switch lets pass. -/
def afterSwitch (here : Signals) : Signals := { here with breaks := false }

/-- Whether a statement may complete in a certain way. -/
def allows (here : Signals) : Completion → Bool
  | .normal _ => true
  | .broke => here.breaks
  | .continued => here.continues
  | .returned _ => here.returns

end Signals

namespace StmtKind

/-- Whether a statement is a loop. -/
def isLoop : StmtKind → Bool
  | whileLoop .. | doWhile .. | forLoop .. | forIn .. | forOf .. => true
  | _ => false

/-- Whether a statement is a switch. -/
def isSwitch : StmtKind → Bool
  | switch .. => true
  | _ => false

/-- The signals that a statement lets pass where signals `here` are expected. -/
def letsPass (here : Signals) : StmtKind → Signals
  | whileLoop .. | doWhile .. | forLoop .. | forIn .. | forOf .. => here.afterLoop
  | switch .. => here.afterSwitch
  | _ => here

/-- What a statement lets pass is expected, and is not meant for a loop or a switch. -/
theorem allows_of_letsPass {kind : StmtKind} {here : Signals} {c : Completion}
    (h : (kind.letsPass here).allows c = true) :
    here.allows c = true ∧ (kind.isLoop = true → c ≠ .broke ∧ c ≠ .continued) ∧
      (kind.isSwitch = true → c ≠ .broke) := by
  cases kind <;> cases c <;>
    simp_all [letsPass, isLoop, isSwitch, Signals.afterLoop, Signals.afterSwitch, Signals.allows]

end StmtKind

/-! ## Scoped phrases -/

section Scoped

variable (bodies : Signals)

mutual

/-- Whether all functions in an expression keep to the signals `bodies`. -/
def Expr.isScoped : Expr → Bool
  | .node _ kind => kind.isScoped

/-- Whether all functions in what stands at an expression keep to the signals `bodies`. -/
def ExprKind.isScoped : ExprKind → Bool
  | .literal _ | .ident _ | .this => true
  | .list items => Expr.areScoped items
  | .record entries => Expr.entriesScoped entries
  | .function _ _ body => Stmt.areScoped bodies body
  | .unary _ operand => operand.isScoped
  | .update _ _ target => target.isScoped
  | .binary _ left right => left.isScoped && right.isScoped
  | .logical _ left right => left.isScoped && right.isScoped
  | .conditional test consequent alternate =>
    test.isScoped && consequent.isScoped && alternate.isScoped
  | .assign _ target value => target.isScoped && value.isScoped
  | .member object _ => object.isScoped
  | .index object key => object.isScoped && key.isScoped
  | .call callee args => callee.isScoped && Expr.areScoped args
  | .importModule source => source.isScoped

/-- Expressions that are all scoped. -/
def Expr.areScoped : List Expr → Bool
  | [] => true
  | e :: es => e.isScoped && Expr.areScoped es

/-- Entries of a record whose values are all scoped. -/
def Expr.entriesScoped : List (String × Expr) → Bool
  | [] => true
  | (_, e) :: entries => e.isScoped && Expr.entriesScoped entries

/-- An expression that is scoped if it is there. -/
def Expr.optionScoped : Option Expr → Bool
  | none => true
  | some e => e.isScoped

/-- Whether a statement sends no signals but those it may, and all functions in it keep to the
signals `bodies`. -/
def Stmt.isScoped (here : Signals) : Stmt → Bool
  | .node _ kind => kind.isScoped here

/-- Whether what stands at a statement sends no signals but those it may. -/
def StmtKind.isScoped (here : Signals) : StmtKind → Bool
  | .expression e => e.isScoped
  | .declare _ declarators => Stmt.declaratorsScoped declarators
  | .function _ _ body => Stmt.areScoped bodies body
  | .block body => Stmt.areScoped here body
  | .ifElse test consequent alternate =>
    test.isScoped && consequent.isScoped here && Stmt.optionScoped here alternate
  | .whileLoop test body => test.isScoped && body.isScoped here.inLoop
  | .doWhile body test => body.isScoped here.inLoop && test.isScoped
  | .forLoop init test update body => Stmt.optionScoped here init && Expr.optionScoped test &&
    Expr.optionScoped update && body.isScoped here.inLoop
  | .forIn _ object body => object.isScoped && body.isScoped here.inLoop
  | .forOf _ iterable body => iterable.isScoped && body.isScoped here.inLoop
  | .switch discriminant cases => discriminant.isScoped && Stmt.casesScoped here.inSwitch cases
  | .tryCatch block handler finalizer => Stmt.areScoped here block &&
    Stmt.handlerScoped here handler && Stmt.finalizerScoped here finalizer
  | .throw value => value.isScoped
  | .ret value => here.returns && Expr.optionScoped value
  | .breakLoop => here.breaks
  | .continueLoop => here.continues
  | .whenGuard test body => test.isScoped && Stmt.areScoped here body
  | .otherwise body => Stmt.areScoped here body
  | .observe _ handler => handler.isScoped
  | .importNames _ _ => true
  | .exported declaration => declaration.isScoped here
  | .empty => true

/-- Statements that are all scoped. -/
def Stmt.areScoped (here : Signals) : List Stmt → Bool
  | [] => true
  | st :: body => st.isScoped here && Stmt.areScoped here body

/-- A statement that is scoped if it is there. -/
def Stmt.optionScoped (here : Signals) : Option Stmt → Bool
  | none => true
  | some st => st.isScoped here

/-- Declarators whose initial values are all scoped. -/
def Stmt.declaratorsScoped : List (String × Option Expr) → Bool
  | [] => true
  | (_, init) :: declarators => Expr.optionScoped init && Stmt.declaratorsScoped declarators

/-- Cases whose tests and bodies are all scoped. -/
def Stmt.casesScoped (here : Signals) : List (Option Expr × List Stmt) → Bool
  | [] => true
  | (test, body) :: cases =>
    Expr.optionScoped test && Stmt.areScoped here body && Stmt.casesScoped here cases

/-- A handler whose body is scoped if it is there. -/
def Stmt.handlerScoped (here : Signals) : Option (Option String × List Stmt) → Bool
  | none => true
  | some (_, body) => Stmt.areScoped here body

/-- A finalizer that is scoped if it is there. -/
def Stmt.finalizerScoped (here : Signals) : Option (List Stmt) → Bool
  | none => true
  | some body => Stmt.areScoped here body

end

end Scoped

/-- Nothing is out of scope where all signals are expected. -/
theorem isScoped_all :
    (∀ e : Expr, e.isScoped .all = true) ∧ (∀ st : Stmt, st.isScoped .all .all = true) ∧
      ∀ body, Stmt.areScoped .all .all body = true := by
  obtain ⟨hexpr, -, hbody, hstmt, -⟩ := by
    apply Expr.isScoped.mutual_induct_unfolding Signals.all
      (fun _ b => b = true) (fun _ b => b = true) (fun here _ b => here = .all → b = true)
      (fun here _ b => here = .all → b = true) (fun here _ b => here = .all → b = true)
      (fun here _ b => here = .all → b = true) (fun here _ b => here = .all → b = true)
      (fun here _ b => here = .all → b = true) (fun _ b => b = true)
      (fun here _ b => here = .all → b = true) (fun _ b => b = true) (fun _ b => b = true)
      (fun _ b => b = true)
    all_goals intros
    all_goals subst_vars
    all_goals simp_all [Signals.all, Signals.inLoop, Signals.inSwitch]
  exact ⟨hexpr, fun st => hstmt .all st rfl, fun body => hbody .all body rfl⟩

end ReactiveScript
