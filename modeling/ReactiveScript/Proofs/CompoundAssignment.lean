import ReactiveScript.Proofs.Interruption
import ReactiveScript.Proofs.ReadBack
import ReactiveScript.Proofs.Results

/-!
# Compound assignment

`t op= e` is `t = t op e`, where the second `t` is a copy of the target. The copy makes no
difference: the parts of a target are names, the receiver or literals, which change nothing and have
the same values when they are evaluated once more. Its failures get the position of the assignment
from the assignment, and the copy has that position already.

Counting a variable is the compound assignment of `1`. Only the value of `x++` and `x--` is another
one.
-/

namespace ReactiveScript

/-! ## Targets and their copies -/

/-- Whether an expression is a literal, a name or `this`. -/
def ExprKind.isAtom : ExprKind → Bool
  | literal _ | ident _ | this => true
  | _ => false

/-- Whether an assignment target is a name, or a property that is given by atoms. -/
def ExprKind.isPlainTarget : ExprKind → Bool
  | ident _ => true
  | member object _ => object.kind.isAtom
  | index object key => object.kind.isAtom && key.kind.isAtom
  | _ => false

/-- A target whose parts are moved to a position. -/
def ExprKind.partsAt (span : Span) : ExprKind → ExprKind
  | member object property => member (object.withSpan span) property
  | index object key => index (object.withSpan span) (key.withSpan span)
  | kind => kind

namespace Expr

/-- A copy of a target all of whose nodes are at one position. -/
def copyAt (target : Expr) (span : Span) : Expr := node span (target.kind.partsAt span)

/-- The assignment `target op= e`. -/
def compoundAssign (span : Span) (op : BinaryOp) (target e : Expr) : Expr :=
  node span (.assign (some op) target e)

/-- The assignment `target = target op e`. All nodes that are not part of `target` or `e` are at the
position of the assignment. -/
def assignBinary (span : Span) (op : BinaryOp) (target e : Expr) : Expr :=
  node span (.assign none target (node span (.binary op (target.copyAt span) e)))

end Expr

/-- The operator that counts. -/
def UpdateOp.toBinaryOp : UpdateOp → BinaryOp
  | increment => .add
  | decrement => .sub

namespace Expr

/-- One of `++name`, `--name`, `name++` and `name--`. -/
def countVariable (span nameSpan : Span) (op : UpdateOp) (first : Bool) (name : String) : Expr :=
  node span (.update op first (node nameSpan (.ident name)))

/-- The assignment `name += 1` or `name -= 1`. -/
def assignCount (span nameSpan oneSpan : Span) (op : UpdateOp) (name : String) : Expr :=
  compoundAssign span op.toBinaryOp (node nameSpan (.ident name))
    (node oneSpan (.literal (.number 1)))

end Expr

namespace Failure

/-- The first known position counts. -/
@[simp]
theorem locate_locate (span : Span) (failure : Failure) :
    (failure.locate span).locate span = failure.locate span := by
  unfold locate
  split
  · cases failure with
    | raised cause at? => cases at? <;> rfl
    | interrupted => rfl
  · rfl

end Failure

namespace Eval

variable {α β : Type} {m m' : Eval α} {f f' : α → Eval β} {s : State} {span : Span}

theorem locating_apply (span : Span) (m : Eval α) (s : State) :
    locating span m s = (m s).mapError (·.locate span) := rfl

/-- Two sequences that are located as a whole, step by step. -/
theorem locating_bind_congr (hm : m s = m' s)
    (hf : ∀ a s₁, m s = .ok a s₁ → locating span (f a) s₁ = locating span (f' a) s₁) :
    locating span (m >>= f) s = locating span (m' >>= f') s := by
  rw [locating_apply, locating_apply, bind_apply, bind_apply, ← hm]
  cases h : m s with
  | ok a s₁ => exact hf a s₁ h
  | error | exhausted => rfl

/-- What is located as a whole need not be located in its first part. -/
theorem locating_bind_locating (span : Span) (m : Eval α) (f : α → Eval β) :
    locating span (locating span m >>= f) = locating span (m >>= f) := by
  funext s
  rw [locating_apply, locating_apply, bind_apply, bind_apply, locating_apply]
  cases m s with
  | ok a s₁ => rfl
  | error failure s₁ => exact congrArg (Outcome.error · s₁) (failure.locate_locate span)
  | exhausted => rfl

end Eval

namespace Evaluator

variable {ctx : Context} {n : Nat} {s s' : State} {span : Span} {op : BinaryOp}
  {target copy e : Expr} {v : Value}

/-! ## Atoms -/

theorem exprKind_atom {kind : ExprKind} (h : kind.isAtom = true) (ev ev' : Evaluator) :
    Rule.exprKind ctx ev kind = Rule.exprKind ctx ev' kind := by
  cases kind <;> first | rfl | cases h

/-- Atoms have no parts that would need fuel. -/
theorem expr_atom (h : e.kind.isAtom = true) (n k : Nat) :
    (level ctx (n + 1)).expr e = (level ctx (k + 1)).expr e := by
  funext s
  show (if s.interrupted then _ else _) = if s.interrupted then _ else _
  rw [exprKind_atom h (level ctx n) (level ctx k)]

/-- Atoms change nothing. -/
theorem exprKind_atom_ok {kind : ExprKind} (h : kind.isAtom = true) {ev : Evaluator}
    (hv : Rule.exprKind ctx ev kind s = .ok v s') : s' = s := by
  cases kind with
  | literal value =>
    cases hv
    rfl
  | ident name =>
    change Rule.ident ctx name s = _ at hv
    unfold Rule.ident at hv
    split at hv <;> cases hv
    rfl
  | this =>
    cases hv
    rfl
  | _ => cases h

/-- An atom that has a value has it again, wherever it stands. -/
theorem expr_atom_ok (h : e.kind.isAtom = true) (hv : (level ctx (n + 1)).expr e s = .ok v s') :
    s' = s ∧ ∀ k span, (level ctx (k + 1)).expr (e.withSpan span) s = .ok v s := by
  by_cases hgo : s.interrupted = true
  · rw [expr_interrupted hgo] at hv
    cases hv
  · obtain ⟨at?, kind⟩ := e
    have hkindAtom : kind.isAtom = true := h
    have hgo : s.interrupted = false := Bool.eq_false_iff.2 hgo
    rw [expr_eq hgo, Eval.locating_apply] at hv
    cases hkind : Rule.exprKind ctx (level ctx n) kind s with
    | ok w s₁ =>
      rw [hkind] at hv
      cases hv
      obtain rfl := exprKind_atom_ok hkindAtom hkind
      refine ⟨rfl, fun k span => ?_⟩
      rw [Expr.withSpan, Expr.kind, expr_eq hgo, Eval.locating_apply,
        exprKind_atom hkindAtom (level ctx k) (level ctx n), hkind]
      rfl
    | error | exhausted =>
      rw [hkind] at hv
      cases hv

/-! ## Reading the target -/

/-- The binary expression has the value that a compound assignment assigns, if the copy of the
target has the value that the assignment reads. -/
theorem binary_eq_newValue {β : Type} (hgo : s.interrupted = false) {old : Eval Value}
    (hcopy : (level ctx n).expr copy s = Eval.locating span old s) (rest : Value → Eval β) :
    Eval.locating span ((level ctx (n + 1)).expr (.node span (.binary op copy e)) >>= rest) s =
      Eval.locating span (Rule.newValue (level ctx n) (some op) old e >>= rest) s := by
  have hbinary : (level ctx (n + 1)).expr (.node span (.binary op copy e)) s =
      Eval.locating span (Rule.newValue (level ctx n) (some op) old e) s := by
    rw [expr_eq hgo]
    show Eval.locating span (Rule.binary (level ctx n) op copy e) s = _
    unfold Rule.binary Rule.newValue
    rw [← Eval.locating_bind_locating span old]
    exact Eval.locating_bind_congr hcopy fun _ _ _ => rfl
  rw [← Eval.locating_bind_locating span (Rule.newValue _ _ _ _)]
  exact Eval.locating_bind_congr hbinary fun _ _ _ => rfl

/-- A compound assignment reads its target where the plain assignment reads the copy of it. The
level that the binary expression spends is the difference of both sides. -/
theorem expr_compoundAssign (htarget : target.kind.isPlainTarget = true) (n : Nat) :
    (level ctx (n + 3)).expr (Expr.compoundAssign span op target e) =
      (level ctx (n + 4)).expr (Expr.assignBinary span op target e) := by
  funext s
  by_cases hgo : s.interrupted = true
  · rw [expr_interrupted hgo, expr_interrupted hgo]
  · have hgo : s.interrupted = false := Bool.eq_false_iff.2 hgo
    rw [Expr.compoundAssign, Expr.assignBinary, expr_eq hgo, expr_eq hgo]
    show Eval.locating span (Rule.assign ctx (level ctx (n + 2)) (some op) target e) s =
      Eval.locating span (Rule.assign ctx (level ctx (n + 3)) none target _) s
    obtain ⟨at?, kind⟩ := target
    cases kind with
    | ident name =>
      unfold Rule.assign
      exact (binary_eq_newValue hgo (expr_eq hgo (n + 1) span (.ident name)) _).symm
    | member object property =>
      have hobject : object.kind.isAtom = true := htarget
      unfold Rule.assign
      -- The plain assignment evaluates the object once more when it reads the copy, in the state
      -- in which it has just evaluated it.
      refine Eval.locating_bind_congr (congrFun (expr_atom hobject _ _) s) fun v s₁ hv => ?_
      obtain ⟨rfl, hcopy⟩ := expr_atom_ok hobject hv
      refine (binary_eq_newValue hgo ?_ _).symm
      rw [Expr.copyAt, expr_eq hgo]
      show Eval.locating span (Rule.member ctx _ (object.withSpan span) property) s₁ = _
      rw [Rule.member, Eval.locating_apply, Eval.bind_apply, hcopy]
      rfl
    | index object key =>
      have hparts : object.kind.isAtom = true ∧ key.kind.isAtom = true :=
        Bool.and_eq_true_iff.1 htarget
      unfold Rule.assign
      refine Eval.locating_bind_congr (congrFun (expr_atom hparts.1 _ _) s) fun v s₁ hv => ?_
      obtain ⟨rfl, hobject⟩ := expr_atom_ok hparts.1 hv
      refine Eval.locating_bind_congr (congrFun (expr_atom hparts.2 _ _) s₁) fun k s₂ hk => ?_
      obtain ⟨rfl, hkey⟩ := expr_atom_ok hparts.2 hk
      refine (binary_eq_newValue hgo ?_ _).symm
      rw [Expr.copyAt, expr_eq hgo]
      show Eval.locating span (Rule.index ctx _ (object.withSpan span) (key.withSpan span)) s₂ = _
      rw [Rule.index, Eval.locating_apply, Eval.bind_apply, hobject]
      show (((level ctx _).expr (key.withSpan span) >>= _) s₂).mapError _ = _
      rw [Eval.bind_apply, hkey]
      rfl
    | _ => cases htarget

/-! ## Counting -/

section Counting

variable {nameSpan oneSpan : Span} {count : UpdateOp} {first : Bool} {name : String} {i : Number}

theorem expr_countVariable (hgo : s.interrupted = false)
    (hname : Rule.lookup? ctx s.env name = some (.number i)) (n : Nat) :
    (level ctx (n + 1)).expr (Expr.countVariable span nameSpan count first name) s =
      Eval.locating span (Rule.assignVariable name (.number (Rule.count count i)) >>= fun _ =>
        pure (.number (if first then Rule.count count i else i))) s := by
  rw [Expr.countVariable, expr_eq hgo, Eval.locating_apply]
  show ((Rule.ident ctx name >>= _ : Eval Value) s).mapError _ = _
  rw [Eval.bind_apply, Rule.ident_of_lookup? hname]
  rfl

theorem expr_assignCount (hgo : s.interrupted = false)
    (hname : Rule.lookup? ctx s.env name = some (.number i)) (n : Nat) :
    (level ctx (n + 2)).expr (Expr.assignCount span nameSpan oneSpan count name) s =
      Eval.locating span (Rule.assignVariable name (.number (Rule.count count i)) >>= fun _ =>
        pure (.number (Rule.count count i))) s := by
  have hone : (level ctx (n + 1)).expr (.node oneSpan (.literal (.number 1))) s =
      .ok (.number 1) s := by
    rw [expr_eq hgo]
    rfl
  have hvalue : Rule.newValue (level ctx (n + 1)) (some count.toBinaryOp) (Rule.ident ctx name)
      (.node oneSpan (.literal (.number 1))) s = .ok (.number (Rule.count count i)) s := by
    show (Rule.ident ctx name >>= _ : Eval Value) s = _
    rw [Eval.bind_apply, Rule.ident_of_lookup? hname]
    show ((level ctx (n + 1)).expr _ >>= _ : Eval Value) s = _
    rw [Eval.bind_apply, hone]
    cases count <;> rfl
  rw [Expr.assignCount, Expr.compoundAssign, expr_eq hgo, Eval.locating_apply]
  show ((Rule.newValue _ _ _ _ >>= _ : Eval Value) s).mapError _ = _
  rw [Eval.bind_apply, hvalue]
  rfl

/-- Counting first has the value of the assignment. -/
theorem expr_countFirst (hname : Rule.lookup? ctx s.env name = some (.number i)) (n : Nat) :
    (level ctx (n + 2)).expr (Expr.countVariable span nameSpan count true name) s =
      (level ctx (n + 2)).expr (Expr.assignCount span nameSpan oneSpan count name) s := by
  by_cases hgo : s.interrupted = true
  · rw [expr_interrupted hgo, expr_interrupted hgo]
  · have hgo : s.interrupted = false := Bool.eq_false_iff.2 hgo
    rw [expr_countVariable hgo hname, expr_assignCount hgo hname]
    rfl

/-- Counting afterwards has the value that was there before. -/
theorem expr_countAfterwards (hname : Rule.lookup? ctx s.env name = some (.number i)) (n : Nat) :
    (level ctx (n + 2)).expr (Expr.countVariable span nameSpan count false name) s =
      ((level ctx (n + 2)).expr (Expr.assignCount span nameSpan oneSpan count name) >>= fun _ =>
        pure (.number i)) s := by
  rw [Eval.bind_apply]
  by_cases hgo : s.interrupted = true
  · rw [expr_interrupted hgo, expr_interrupted hgo]
  · have hgo : s.interrupted = false := Bool.eq_false_iff.2 hgo
    rw [expr_countVariable hgo hname, expr_assignCount hgo hname, Eval.locating_apply,
      Eval.locating_apply, Eval.bind_apply, Eval.bind_apply]
    cases Rule.assignVariable name _ s <;> rfl

end Counting

end Evaluator

open Interpreter (evalExpr)

/-- Compound assignment, counting and plain assignment agree. Whatever the right-hand side `e` does,
and even if it assigns to the target or to what the target is made of, `t op= e` comes to what
`t = t op e` comes to: to the same value or failure, in the same state. Here `t` is a name, or a
property given by names, literals and `this`. If a name stands for a number, then `++x` and `--x`
come to what `x += 1` and `x -= 1` come to, and so do `x++` and `x--` but for their value, which is
the old number. -/
theorem compound_assignment_is_assignment (ctx : Context) (span : Span) (s : State)
    (r : Except Failure Value) (s' : State) :
    (∀ (op : BinaryOp) (target e : Expr), target.kind.isPlainTarget = true →
      (Eval.ComesTo (fun fuel => evalExpr ctx fuel (Expr.compoundAssign span op target e)) s r s' ↔
        Eval.ComesTo (fun fuel => evalExpr ctx fuel (Expr.assignBinary span op target e)) s r s')) ∧
    ∀ (count : UpdateOp) (name : String) (i : Number) (nameSpan oneSpan : Span),
      Rule.lookup? ctx s.env name = some (.number i) →
      (Eval.ComesTo (fun fuel =>
          evalExpr ctx fuel (Expr.countVariable span nameSpan count true name)) s r s' ↔
        Eval.ComesTo (fun fuel =>
          evalExpr ctx fuel (Expr.assignCount span nameSpan oneSpan count name)) s r s') ∧
      (Eval.ComesTo (fun fuel =>
          evalExpr ctx fuel (Expr.countVariable span nameSpan count false name)) s r s' ↔
        Eval.ComesTo (fun fuel =>
          evalExpr ctx fuel (Expr.assignCount span nameSpan oneSpan count name) >>= fun _ =>
            pure (.number i)) s r s') := by
  have hmore : ∀ (e : Expr) (n k : Nat), n ≤ k → (evalExpr ctx n e).Extends (evalExpr ctx k e) :=
    fun e _ _ h => (Evaluator.related_level_of_le ctx h).expr e
  refine ⟨fun op target e htarget => ?_, fun count name i nameSpan oneSpan hname => ⟨?_, ?_⟩⟩
  · exact Eval.ComesTo.iff_of_shift (hmore _) (hmore _) (a := 3) (b := 4) fun n =>
      congrFun (Evaluator.expr_compoundAssign htarget n) s
  · exact Eval.ComesTo.iff_of_shift (hmore _) (hmore _) (a := 2) (b := 2) fun n =>
      Evaluator.expr_countFirst hname n
  · refine Eval.ComesTo.iff_of_shift (hmore _) (fun n k h => ?_) (a := 2) (b := 2) fun n =>
      Evaluator.expr_countAfterwards hname n
    exact (hmore _ n k h).bind fun _ => .refl _

/-- A record `o` with an entry `p`, and a number `i`. -/
def recordAndNumber : State where
  env := (({} : Environment).define "o" (.record 0) .mutable).define "i" (.number 0) .mutable
  store := { records := #[[("p", .string "a")]] }

/-- The assignment `o = "b"`. -/
def replaceRecord : Expr :=
  Expr.of (.assign none (Expr.of (.ident "o")) (Expr.of (.literal (.string "b"))))

/-- The target `o.p`. -/
def recordEntry : Expr := Expr.of (.member (Expr.of (.ident "o")) "p")

/-- The right-hand side of `o.p += (o = "b")` takes the record away from its name; the assignment
is to the record all the same. -/
theorem compound_assignment_is_assignment_replaceRecord :
    recordEntry.kind.isPlainTarget = true ∧
      Rule.lookup? plainContext recordAndNumber.env "i" = some (.number 0) ∧
      (∃ s', s'.store.record 0 = [("p", .string "ab")] ∧
        Eval.ComesTo (fun fuel => evalExpr plainContext fuel
          (Expr.compoundAssign .unknown .add recordEntry replaceRecord)) recordAndNumber
          (.ok (.string "ab")) s' ∧
        Eval.ComesTo (fun fuel => evalExpr plainContext fuel
          (Expr.assignBinary .unknown .add recordEntry replaceRecord)) recordAndNumber
          (.ok (.string "ab")) s') ∧
      ∃ s', Rule.lookup? plainContext s'.env "i" = some (.number 1) ∧
        Eval.ComesTo (fun fuel => evalExpr plainContext fuel
          (Expr.countVariable .unknown .unknown .increment true "i")) recordAndNumber
          (.ok (.number 1)) s' ∧
        Eval.ComesTo (fun fuel => evalExpr plainContext fuel
          (Expr.assignCount .unknown .unknown .unknown .increment "i")) recordAndNumber
          (.ok (.number 1)) s' := by
  have hname : Rule.lookup? plainContext recordAndNumber.env "i" = some (.number 0) := rfl
  have hcompound : ∃ s', s'.store.record 0 = [("p", .string "ab")] ∧
      Eval.ComesTo (fun fuel => evalExpr plainContext fuel
        (Expr.compoundAssign .unknown .add recordEntry replaceRecord)) recordAndNumber
        (.ok (.string "ab")) s' := ⟨_, rfl, 3, rfl⟩
  have hcount : ∃ s', Rule.lookup? plainContext s'.env "i" = some (.number 1) ∧
      Eval.ComesTo (fun fuel => evalExpr plainContext fuel
        (Expr.countVariable .unknown .unknown .increment true "i")) recordAndNumber
        (.ok (.number 1)) s' := ⟨_, rfl, 1, rfl⟩
  obtain ⟨s', hrecord, hcompound⟩ := hcompound
  obtain ⟨s'', hnumber, hcount⟩ := hcount
  refine ⟨rfl, hname, ⟨s', hrecord, hcompound, ?_⟩, s'', hnumber, hcount, ?_⟩
  · exact ((compound_assignment_is_assignment plainContext .unknown recordAndNumber _ s').1 .add
      recordEntry replaceRecord rfl).1 hcompound
  · exact ((compound_assignment_is_assignment plainContext .unknown recordAndNumber _ s'').2
      .increment "i" 0 .unknown .unknown hname).1.1 hcount

end ReactiveScript
