import ReactiveScript.Proofs.Congruence.Program
import ReactiveScript.Proofs.Privacy.Rules

/-!
# The table of functions

A function value refers to an entry of the store. Programs store new functions behind the others and
write to lists, records and host objects only. So such a value means the same function whenever it
is called, however late in a session, if host code leaves the functions of the store alone as well.
-/

namespace ReactiveScript

/-- A store that has kept all functions and may have got new ones. -/
def Store.KeepsFunctions (st st' : Store) : Prop := st.functions.toList <+: st'.functions.toList

namespace Store.KeepsFunctions

variable {st st₁ st₂ : Store}

theorem refl (st : Store) : st.KeepsFunctions st := List.prefix_rfl

theorem trans (h : st.KeepsFunctions st₁) (h' : st₁.KeepsFunctions st₂) : st.KeepsFunctions st₂ :=
  List.IsPrefix.trans h h'

theorem of_functions (h : st₁.functions = st.functions) : st.KeepsFunctions st₁ :=
  ⟨[], by rw [h, List.append_nil]⟩

theorem newFunction (st : Store) (f : Function) : st.KeepsFunctions (st.newFunction f).2 :=
  ⟨[f], Array.toList_push.symm⟩

theorem allocates {f : Store → Value × Store} (hf : Store.Allocates f) (st : Store) :
    st.KeepsFunctions (f st).2 := by
  cases hf with
  | list | record => exact of_functions rfl
  | function f => exact newFunction st f

/-- A reference to a function means the same function afterwards. -/
theorem function_eq (h : st.KeepsFunctions st₁) {ref : Ref} (href : ref < st.functions.size) :
    st₁.function ref = st.function ref := by
  obtain ⟨more, hmore⟩ := h
  have hentry : st₁.functions[ref]? = st.functions[ref]? := by
    rw [← Array.getElem?_toList, ← hmore, List.getElem?_append_left href, Array.getElem?_toList]
  unfold function
  rw [Array.getD_eq_getD_getElem?, Array.getD_eq_getD_getElem?, hentry]

end Store.KeepsFunctions

namespace Host

/-- Host code that keeps all functions of the store. -/
def KeepsFunctions (f : Store → Reply) : Prop := ∀ st : Store, st.KeepsFunctions (f st).store

instance standardLibrary_within : standardLibrary.Within KeepsFunctions where
  builtin _ _ := fun st => .refl st
  invoke ref method args := fun st => .of_functions (functions_invoke st ref method args)

end Host

/-! ## Evaluations -/

/-- An evaluation that keeps all functions, whether it succeeds or fails. -/
def Eval.KeepsFunctions {α : Type} (m : Eval α) : Prop :=
  ∀ s, (m s).Leaves fun s' => s.store.KeepsFunctions s'.store

namespace Eval.KeepsFunctions

variable {α β : Type} {m : Eval α}

theorem of_functions (h : ∀ s, (m s).Leaves fun s' => s'.store.functions = s.store.functions) :
    m.KeepsFunctions :=
  fun s => (h s).imp fun _ => .of_functions

protected theorem bind {f : α → Eval β} (hm : m.KeepsFunctions)
    (hf : ∀ a, (f a).KeepsFunctions) : (m >>= f).KeepsFunctions := by
  intro s
  refine leaves_bind (hm s) (fun _ => id) fun a s₁ h₁ => ?_
  exact (hf a s₁).imp fun s₂ h₂ => h₁.trans h₂

theorem tryEnv (f : Environment → Except BindingError Environment) :
    (Eval.tryEnv f).KeepsFunctions := by
  refine of_functions fun s => ?_
  unfold Eval.tryEnv
  split
  · exact .ok rfl
  · exact .error rfl

theorem assignVariable (name : String) (v : Value) :
    (Rule.assignVariable name v).KeepsFunctions := by
  refine of_functions fun s => ?_
  unfold Rule.assignVariable
  split
  · exact .error rfl
  · exact .ok rfl
  · exact .ok (Rule.notify_keeps _ _).2

theorem inCall (f : Function) (self : Value) (hm : m.KeepsFunctions) :
    (Eval.inCall f self m).KeepsFunctions := by
  intro s
  unfold Eval.inCall
  split
  · exact .error (.refl _)
  · rename_i env _
    exact (hm { s with env }).mapState

theorem takeNotification : Eval.takeNotification.KeepsFunctions := by
  refine of_functions fun s => ?_
  unfold Eval.takeNotification Interpreter.takeNotification
  cases s.queue.next? <;> exact .ok rfl

/-- Every evaluation keeps all functions, if host code does. -/
theorem congruence (trace trace' : Bool) :
    SessionCongruence trace trace' (fun _ _ m _ => m.KeepsFunctions) Host.KeepsFunctions where
  ofCall hm := hm
  ofExpression hm := hm
  ofStatement hm := hm
  stop _ := .exhausted
  pure _ := of_functions fun _ => .ok rfl
  bind := .bind
  fail _ := of_functions fun _ => .error rfl
  mapError _ hm s := (hm s).mapError
  attempt hm s := leaves_attempt (hm s)
  checkInterrupt := of_functions fun _ => leaves_checkInterrupt rfl
  store := of_functions fun _ => .ok rfl
  tryWrite _ := of_functions fun s => leaves_tryWrite rfl (Store.functions_write s.store)
  allocate _ hf s := .ok (.allocates hf s.store)
  hostCall _ _ hf := fun s => leaves_hostCall (hf s.store)
  emit _ := of_functions fun _ => .ok rfl
  emitIf _ _ := of_functions fun _ => by
    cases trace <;> exact .ok rfl
  exports _ _ := of_functions fun _ => .ok rfl
  get _ := of_functions fun _ => .ok rfl
  capture := of_functions fun _ => .ok rfl
  assignVariable := assignVariable
  register _ _ := tryEnv _
  declare _ _ _ _ := tryEnv _
  define _ _ _ := of_functions fun _ => .ok rfl
  setLocal _ _ := of_functions fun _ => .ok rfl
  inBlock hm s := (hm { s with env := s.env.pushBlock }).mapState
  inCall := inCall
  takeNotification := takeNotification
  interrupt := of_functions fun _ => .ok rfl

end Eval.KeepsFunctions

/-! ## Sessions -/

/-- What a host asks for keeps all functions. -/
theorem Request.keepsFunctions (ctx : Context) [ctx.library.Within Host.KeepsFunctions]
    (fuel : Nat) (request : Request) :
    (request.perform (Evaluator.level ctx fuel) fuel).KeepsFunctions := by
  have hR := Eval.KeepsFunctions.congruence ctx.trace ctx.trace
  by_cases hreset : request = .reset
  · subst hreset
    exact fun s => .ok (.refl s.store)
  · exact hR.perform (hR.toCongruence.level fuel) fuel hreset

/-- A session keeps all functions, by induction on what is asked for. -/
theorem keepsFunctions_of_serve? {visits : List Visit} {s t : State}
    (hhost : ∀ visit ∈ visits, visit.ctx.library.Within Host.KeepsFunctions)
    (h : serve? Evaluator.level visits s = some t) : s.store.KeepsFunctions t.store := by
  induction visits generalizing s with
  | nil =>
    cases h
    exact .refl _
  | cons visit visits ih =>
    obtain ⟨hvisit, hvisits⟩ := List.forall_mem_cons.1 hhost
    obtain ⟨s₁, hafter, hserve⟩ := Option.bind_eq_some_iff.1 h
    have hkeeps := visit.request.keepsFunctions visit.ctx visit.fuel s
    refine Store.KeepsFunctions.trans ?_ (ih hvisits hserve)
    unfold Visit.after? at hafter
    generalize visit.request.perform _ visit.fuel s = o at hkeeps hafter
    cases hkeeps with
    | ok h | error h =>
      cases hafter
      exact h
    | exhausted => cases hafter

end ReactiveScript
