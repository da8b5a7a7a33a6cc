import ReactiveScript.Proofs.Preservation
import ReactiveScript.Proofs.StandardHost

/-!
# Private phrases

A phrase is *private* if no export statement stands in it, not even in the body of a function that
is written in it. What such a phrase calls may be a function from elsewhere, so a store is private
if all its functions are. From a private store the evaluation of a private phrase exports nothing
and leaves a private store.
-/

namespace ReactiveScript

/-! ## Syntax -/

mutual

/-- Whether no export statement stands in an expression. -/
def Expr.isPrivate : Expr → Bool
  | .node _ kind => kind.isPrivate

/-- Whether no export statement stands in what stands at an expression. -/
def ExprKind.isPrivate : ExprKind → Bool
  | .literal _ | .ident _ | .this => true
  | .list items => Expr.arePrivate items
  | .record entries => Expr.entriesPrivate entries
  | .function _ _ body => Stmt.arePrivate body
  | .unary _ operand => operand.isPrivate
  | .update _ _ target => target.isPrivate
  | .binary _ left right => left.isPrivate && right.isPrivate
  | .logical _ left right => left.isPrivate && right.isPrivate
  | .conditional test consequent alternate =>
    test.isPrivate && consequent.isPrivate && alternate.isPrivate
  | .assign _ target value => target.isPrivate && value.isPrivate
  | .member object _ => object.isPrivate
  | .index object key => object.isPrivate && key.isPrivate
  | .call callee args => callee.isPrivate && Expr.arePrivate args
  | .importModule source => source.isPrivate

/-- Expressions that are all private. -/
def Expr.arePrivate : List Expr → Bool
  | [] => true
  | e :: es => e.isPrivate && Expr.arePrivate es

/-- Entries of a record whose values are all private. -/
def Expr.entriesPrivate : List (String × Expr) → Bool
  | [] => true
  | (_, e) :: entries => e.isPrivate && Expr.entriesPrivate entries

/-- An expression that is private if it is there. -/
def Expr.optionPrivate : Option Expr → Bool
  | none => true
  | some e => e.isPrivate

/-- Whether a statement is no export statement and none stands in it. -/
def Stmt.isPrivate : Stmt → Bool
  | .node _ kind => kind.isPrivate

/-- Whether what stands at a statement is no export and none stands in it. -/
def StmtKind.isPrivate : StmtKind → Bool
  | .expression e => e.isPrivate
  | .declare _ declarators => Stmt.declaratorsPrivate declarators
  | .function _ _ body => Stmt.arePrivate body
  | .block body => Stmt.arePrivate body
  | .ifElse test consequent alternate =>
    test.isPrivate && consequent.isPrivate && Stmt.optionPrivate alternate
  | .whileLoop test body => test.isPrivate && body.isPrivate
  | .doWhile body test => body.isPrivate && test.isPrivate
  | .forLoop init test update body => Stmt.optionPrivate init && Expr.optionPrivate test &&
    Expr.optionPrivate update && body.isPrivate
  | .forIn _ object body => object.isPrivate && body.isPrivate
  | .forOf _ iterable body => iterable.isPrivate && body.isPrivate
  | .switch discriminant cases => discriminant.isPrivate && Stmt.casesPrivate cases
  | .tryCatch block handler finalizer =>
    Stmt.arePrivate block && Stmt.handlerPrivate handler && Stmt.finalizerPrivate finalizer
  | .throw value => value.isPrivate
  | .ret value => Expr.optionPrivate value
  | .breakLoop | .continueLoop => true
  | .whenGuard test body => test.isPrivate && Stmt.arePrivate body
  | .otherwise body => Stmt.arePrivate body
  | .observe _ handler => handler.isPrivate
  | .importNames _ _ => true
  | .exported _ => false
  | .empty => true

/-- Statements that are all private. -/
def Stmt.arePrivate : List Stmt → Bool
  | [] => true
  | st :: body => st.isPrivate && Stmt.arePrivate body

/-- A statement that is private if it is there. -/
def Stmt.optionPrivate : Option Stmt → Bool
  | none => true
  | some st => st.isPrivate

/-- Declarators whose initial values are all private. -/
def Stmt.declaratorsPrivate : List (String × Option Expr) → Bool
  | [] => true
  | (_, init) :: declarators => Expr.optionPrivate init && Stmt.declaratorsPrivate declarators

/-- Cases whose tests and bodies are all private. -/
def Stmt.casesPrivate : List (Option Expr × List Stmt) → Bool
  | [] => true
  | (test, body) :: cases =>
    Expr.optionPrivate test && Stmt.arePrivate body && Stmt.casesPrivate cases

/-- A handler whose body is private if it is there. -/
def Stmt.handlerPrivate : Option (Option String × List Stmt) → Bool
  | none => true
  | some (_, body) => Stmt.arePrivate body

/-- A finalizer that is private if it is there. -/
def Stmt.finalizerPrivate : Option (List Stmt) → Bool
  | none => true
  | some body => Stmt.arePrivate body

end

theorem Stmt.isPrivate_kind {st : Stmt} (h : st.isPrivate = true) : st.kind.isPrivate = true := by
  obtain ⟨span, kind⟩ := st
  rwa [isPrivate] at h

theorem Expr.isPrivate_kind {e : Expr} (h : e.isPrivate = true) : e.kind.isPrivate = true := by
  obtain ⟨span, kind⟩ := e
  rwa [isPrivate] at h

/-! ## Stores -/

namespace Store

/-- All functions are private. -/
def Private (st : Store) : Prop := ∀ ref, Stmt.arePrivate (st.function ref).body = true

variable {st st' : Store}

theorem Private.of_functions (h : st.Private) (hsame : st'.functions = st.functions) :
    st'.Private := by
  intro ref
  have hfunction : st'.function ref = st.function ref := by
    unfold function
    rw [hsame]
  rw [hfunction]
  exact h ref

theorem Private.newFunction (h : st.Private) {f : Function}
    (hbody : Stmt.arePrivate f.body = true) : (st.newFunction f).2.Private := by
  intro ref
  have href := h ref
  simp only [Store.newFunction, function, Array.getD_eq_getD_getElem?, Array.getElem?_push]
    at href ⊢
  split
  · exact hbody
  · exact href

theorem functions_write (st : Store) (write : Write) :
    (st.write write).functions = st.functions := by
  cases write <;> rfl

theorem private_empty : ({} : Store).Private := fun _ => rfl

end Store

/-- Host code stores private functions only. -/
structure HostLibrary.Private (lib : HostLibrary) : Prop where
  builtin {st : Store} (name : String) (args : List Value) :
    st.Private → (lib.builtin name args st).store.Private
  invoke {st : Store} (ref : Ref) (method : String) (args : List Value) :
    st.Private → (lib.invoke st ref method args).store.Private

/-! ## The standard host -/

namespace Json

mutual

/-- The values of trees are plain data. -/
theorem functions_toValue (j : Json) (st : Store) : (j.toValue st).2.functions = st.functions := by
  cases j with
  | null | bool | number | string => rfl
  | array items => exact functions_toValues items #[] st
  | object entries => exact functions_toEntries entries [] st

theorem functions_toValues (js : List Json) (made : Array Value) (st : Store) :
    (toValues js made st).2.functions = st.functions := by
  cases js with
  | nil => rfl
  | cons j js => exact (functions_toValues js _ _).trans (functions_toValue j st)

theorem functions_toEntries (entries : List (String × Json)) (made : OrderedMap Value)
    (st : Store) : (toEntries entries made st).2.functions = st.functions := by
  cases entries with
  | nil => rfl
  | cons entry entries =>
    exact (functions_toEntries entries _ _).trans (functions_toValue entry.2 st)

end

end Json

namespace Host

theorem functions_parseJson (args : List Value) (st : Store) :
    (HostClass.parseJson args st).store.functions = st.functions := by
  unfold HostClass.parseJson
  split
  · rfl
  · split
    · rfl
    · exact Json.functions_toValue _ _

theorem functions_invoke (st : Store) (ref : Ref) (method : String) (args : List Value) :
    (standardLibrary.invoke st ref method args).store.functions = st.functions := by
  unfold HostLibrary.invoke
  rcases classAt_standardLibrary st ref with h | h | h <;> rw [h]
  · show (if _ then _ else _ : Reply).store.functions = _
    split <;> rfl
  · show (if _ then _ else if _ then _ else _ : Reply).store.functions = _
    split
    · rfl
    · split
      · exact functions_parseJson args st
      · rfl
  · rfl

theorem private_standardLibrary : standardLibrary.Private where
  builtin _ _ h := h
  invoke ref method args h := h.of_functions (functions_invoke _ ref method args)

end Host

/-! ## Evaluations -/

namespace Eval

variable {α β : Type}

/-- An evaluation that exports nothing and leaves a private store, if it finds one. -/
def Private (m : Eval α) : Prop :=
  ∀ s, s.store.Private → (m s).Leaves fun s' => s'.exports = s.exports ∧ s'.store.Private

namespace Private

variable {m : Eval α}

/-- Evaluations that leave exports and functions alone are private. -/
theorem of_same (h : ∀ s, (m s).Leaves fun s' =>
    s'.exports = s.exports ∧ s'.store.functions = s.store.functions) : m.Private :=
  fun s hs => (h s).imp fun _ hsame => ⟨hsame.1, hs.of_functions hsame.2⟩

protected theorem pure (a : α) : (pure a : Eval α).Private := of_same fun _ => .ok ⟨rfl, rfl⟩

theorem fail (failure : Failure) : (Eval.fail failure : Eval α).Private :=
  of_same fun _ => .error ⟨rfl, rfl⟩

theorem raise (cause : Cause) : (Eval.raise cause : Eval α).Private := fail _

theorem ofExcept (x : Except Cause α) : (Eval.ofExcept x).Private := by
  cases x with
  | ok a => exact Private.pure a
  | error cause => exact raise cause

theorem ofResult (x : Except Failure α) : (Eval.ofResult x).Private := by
  cases x with
  | ok a => exact Private.pure a
  | error failure => exact fail failure

protected theorem bind {f : α → Eval β} (hm : m.Private) (hf : ∀ a, (f a).Private) :
    (m >>= f).Private := by
  intro s hs
  refine leaves_bind (hm s hs) (fun _ => id) fun a s₁ h => ?_
  exact (hf a s₁ h.2).imp fun _ h' => ⟨h'.1.trans h.1, h'.2⟩

/-- An evaluation that reads the state first. -/
theorem reading {γ : Type} (g : State → γ) {f : γ → Eval α} (h : ∀ x, (f x).Private) :
    Private fun s => f (g s) s :=
  fun s => h (g s) s

theorem mapError (hm : m.Private) (f : Failure → Failure) :
    Private fun s => (m s).mapError f :=
  fun s hs => (hm s hs).mapError

theorem locating (hm : m.Private) (span : Span) : (Eval.locating span m).Private :=
  hm.mapError _

theorem attempt (hm : m.Private) : m.attempt.Private :=
  fun s hs => leaves_attempt (hm s hs)

theorem unlessInterrupted (hm : m.Private) :
    Private fun s => if s.interrupted then .error .interrupted s else m s := by
  intro s hs
  dsimp only
  split
  · exact .error ⟨rfl, hs⟩
  · exact hm s hs

theorem checkInterrupt : Eval.checkInterrupt.Private :=
  of_same fun _ => leaves_checkInterrupt ⟨rfl, rfl⟩

theorem store : Eval.store.Private := of_same fun _ => .ok ⟨rfl, rfl⟩

theorem modifyEnv (f : Environment → Environment) : (Eval.modifyEnv f).Private :=
  of_same fun _ => .ok ⟨rfl, rfl⟩

theorem tryEnv (f : Environment → Except BindingError Environment) : (Eval.tryEnv f).Private := by
  refine of_same fun s => ?_
  unfold Eval.tryEnv
  split
  · exact .ok ⟨rfl, rfl⟩
  · exact .error ⟨rfl, rfl⟩

theorem tryWrite (plan : Store → Except Cause Store.Write) : (Eval.tryWrite plan).Private :=
  of_same fun s => leaves_tryWrite ⟨rfl, rfl⟩ fun write => ⟨rfl, s.store.functions_write write⟩

theorem allocate {f : Store → Value × Store} (hf : ∀ st, st.Private → (f st).2.Private) :
    (Eval.allocate f).Private :=
  fun s hs => .ok ⟨rfl, hf s.store hs⟩

theorem hostCall (name : String) {f : Store → Reply}
    (hf : ∀ st, st.Private → (f st).store.Private) : (Eval.hostCall name f).Private :=
  fun s hs => leaves_hostCall ⟨rfl, hf s.store hs⟩

theorem emit (event : Event) : (Eval.emit event).Private := of_same fun _ => .ok ⟨rfl, rfl⟩

theorem emitIf (trace : Bool) (event : Event) : (Eval.emitIf trace event).Private := by
  unfold Eval.emitIf
  split
  · exact emit event
  · exact Private.pure ()

theorem inBlock (hm : m.Private) : (Eval.inBlock m).Private :=
  fun s hs => (hm { s with env := s.env.pushBlock } hs).mapState

theorem inCall (hm : m.Private) {s : State} (hs : s.store.Private) (f : Function) (self : Value) :
    (Eval.inCall f self m s).Leaves fun s' => s'.exports = s.exports ∧ s'.store.Private := by
  unfold Eval.inCall
  split
  · exact .error ⟨rfl, hs⟩
  · rename_i env _
    exact (hm { s with env } hs).mapState

/-! ### Repetition -/

theorem continuing {rest : Eval Completion} (h : rest.Private) (next : Round) :
    (Eval.continuing rest next).Private := by
  cases next with
  | again => exact h
  | finish completion => exact Private.pure completion

theorem repeating {round : Eval Round} (h : round.Private) (fuel : Nat) :
    (Eval.repeating round fuel).Private := by
  induction fuel with
  | zero => exact fun _ _ => .exhausted
  | succ fuel ih =>
    rw [repeating_succ]
    exact h.bind fun next => continuing ih next

theorem forEach {round : Value → Eval Round} (h : ∀ item, (round item).Private)
    (items : List Value) : (Eval.forEach round items).Private := by
  induction items with
  | nil => exact Private.pure _
  | cons item items ih =>
    rw [forEach_cons]
    exact (h item).bind fun next => continuing ih next

end Private

end Eval

end ReactiveScript
