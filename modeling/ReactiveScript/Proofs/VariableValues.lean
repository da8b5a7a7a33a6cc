import ReactiveScript.Eval.Statement
import ReactiveScript.Proofs.MapKeys
import ReactiveScript.Proofs.Scopes

/-!
# The values of variables

A property of all values that an environment refers to: the values of its variables and the handlers
that watch them. It holds after every operation on the environment if it holds of the values that
come in.
-/

namespace ReactiveScript

/-! ## Entries of maps -/

namespace OrderedMap

variable {α : Type} {m : OrderedMap α} {key k : String} {a b : α}

theorem mem_put (h : (k, b) ∈ put m key a) : (k, b) ∈ m ∨ b = a := by
  induction m with
  | nil =>
    rw [put, List.mem_singleton] at h
    exact Or.inr (Prod.mk.inj h).2
  | cons entry m ih =>
    obtain ⟨k', b'⟩ := entry
    rw [put] at h
    split at h
    · rcases List.mem_cons.1 h with h | h
      · exact Or.inr (Prod.mk.inj h).2
      · exact Or.inl (List.mem_cons_of_mem _ h)
    · rcases List.mem_cons.1 h with h | h
      · exact Or.inl (List.mem_cons.2 (Or.inl h))
      · exact (ih h).imp_left (List.mem_cons_of_mem _)

theorem mem_adjust {f : α → α} (h : (k, b) ∈ adjust m key f) :
    (k, b) ∈ m ∨ ∃ a, (k, a) ∈ m ∧ b = f a := by
  induction m with
  | nil => cases h
  | cons entry m ih =>
    obtain ⟨k', b'⟩ := entry
    rw [adjust] at h
    split at h
    · rcases List.mem_cons.1 h with h | h
      · obtain ⟨rfl, rfl⟩ := Prod.mk.inj h
        exact Or.inr ⟨b', List.mem_cons_self, rfl⟩
      · exact Or.inl (List.mem_cons_of_mem _ h)
    · rcases List.mem_cons.1 h with h | h
      · exact Or.inl (List.mem_cons.2 (Or.inl h))
      · rcases ih h with h | ⟨a, ha, hb⟩
        · exact Or.inl (List.mem_cons_of_mem _ h)
        · exact Or.inr ⟨a, List.mem_cons_of_mem _ ha, hb⟩

/-- A property of all values that are inserted is one of all values of the map. -/
theorem forall_ofEntries {P : α → Prop} {entries : List (String × α)}
    (h : ∀ entry ∈ entries, P entry.2) : ∀ entry ∈ ofEntries entries, P entry.2 := by
  have hfold : ∀ (entries : List (String × α)) (m : OrderedMap α),
      (∀ entry ∈ m, P entry.2) → (∀ entry ∈ entries, P entry.2) →
      ∀ entry ∈ entries.foldl (fun m entry => put m entry.1 entry.2) m, P entry.2 := by
    intro entries
    induction entries with
    | nil => exact fun m hm _ => hm
    | cons entry entries ih =>
      intro m hm hentries
      rw [List.forall_mem_cons] at hentries
      refine ih _ (fun e he => ?_) hentries.2
      rcases mem_put he with he | he
      · exact hm e he
      · rw [he]
        exact hentries.1
  exact hfold entries [] (by simp) h

end OrderedMap

/-! ## Bindings -/

/-- A property of the value of a variable and of all its observers. -/
structure Binding.All (P : Value → Prop) (b : Binding) : Prop where
  value : P b.value
  observers : ∀ handler ∈ b.observers, P handler
  registrations : ∀ r ∈ b.registrations, P r.handler

namespace Binding.All

variable {P Q : Value → Prop} {b : Binding}

theorem imp (h : b.All P) (hPQ : ∀ v, P v → Q v) : b.All Q where
  value := hPQ _ h.value
  observers handler hmem := hPQ _ (h.observers handler hmem)
  registrations r hmem := hPQ _ (h.registrations r hmem)

/-- A new variable has no observers. -/
theorem fresh {v : Value} (h : P v) (mode : Mode) (span : Option Span) :
    Binding.All P { mode := mode, value := v, span := span } where
  value := h
  observers _ hmem := by cases hmem
  registrations _ hmem := by cases hmem

theorem withValue (h : b.All P) {v : Value} (hv : P v) : Binding.All P { b with value := v } :=
  { h with value := hv }

theorem withObserver (h : b.All P) {handler : Value} (hv : P handler) :
    Binding.All P { b with observers := b.observers ++ [handler] } :=
  { h with observers := List.forall_mem_append.2 ⟨h.observers, by simpa using hv⟩ }

theorem withRegistration (h : b.All P) {r : Registration} (hv : P r.handler) :
    Binding.All P { b with registrations := b.registrations ++ [r] } :=
  { h with registrations := List.forall_mem_append.2 ⟨h.registrations, by simpa using hv⟩ }

end Binding.All

/-! ## Environments -/

/-- A property of all values that the variables of an environment refer to. -/
def Environment.All (P : Value → Prop) (env : Environment) : Prop :=
  ∀ i, ∀ entry ∈ (env.scope i).bindings, entry.2.All P

namespace Environment.All

variable {P Q : Value → Prop} {env env' : Environment}

theorem imp (h : env.All P) (hPQ : ∀ v, P v → Q v) : env.All Q :=
  fun i entry hentry => (h i entry hentry).imp hPQ

/-- Operations after which each scope holds no bindings but those it held before. -/
theorem of_subset (h : env.All P)
    (hsub : ∀ i, (env'.scope i).bindings ⊆ (env.scope i).bindings) : env'.All P :=
  fun i entry hentry => h i entry (hsub i hentry)

theorem modifyScope (h : env.All P) (i : Nat) {f : OrderedMap Binding → OrderedMap Binding}
    (hf : ∀ bindings : OrderedMap Binding, (∀ entry ∈ bindings, entry.2.All P) →
      ∀ entry ∈ f bindings, entry.2.All P) : (env.modifyScope i f).All P := by
  intro j entry hentry
  rcases scope_modifyScope env i j f with hscope | ⟨-, hscope⟩
  · rw [hscope] at hentry
    exact h j entry hentry
  · rw [hscope] at hentry
    exact hf _ (h i) entry hentry

/-- A binding is adjusted. -/
theorem adjust (h : env.All P) (i : Nat) (name : String) {f : Binding → Binding}
    (hf : ∀ b : Binding, b.All P → (f b).All P) :
    (env.modifyScope i fun bindings => OrderedMap.adjust bindings name f).All P := by
  refine h.modifyScope i fun bindings hbindings entry hentry => ?_
  rcases OrderedMap.mem_adjust hentry with hentry | ⟨b, hb, heq⟩
  · exact hbindings _ hentry
  · rw [heq]
    exact hf b (hbindings _ hb)

/-! ### Lookup -/

theorem find? (h : env.All P) {i : Nat} {name : String} {b : Binding}
    (hb : OrderedMap.find? (env.scope i).bindings name = some b) : b.All P :=
  h i _ (OrderedMap.mem_of_find? hb)

theorem get? (h : env.All P) {name : String} {v : Value} (hv : env.get? name = some v) : P v := by
  unfold Environment.get? at hv
  obtain ⟨b, hb, rfl⟩ := Option.map_eq_some_iff.1 hv
  obtain ⟨i, -, hfind⟩ := List.exists_of_findSome?_eq_some hb
  exact (h.find? hfind).value

theorem addVisible {seen bindings : OrderedMap Binding} (hseen : ∀ entry ∈ seen, entry.2.All P)
    (hbindings : ∀ entry ∈ bindings, entry.2.All P) :
    ∀ entry ∈ Environment.addVisible seen bindings, entry.2.All P := by
  induction bindings generalizing seen with
  | nil => exact hseen
  | cons entry bindings ih =>
    rw [List.forall_mem_cons] at hbindings
    unfold Environment.addVisible
    refine ih ?_ hbindings.2
    split
    · exact hseen
    · exact List.forall_mem_append.2 ⟨hseen, by simpa using hbindings.1⟩

theorem visible (h : env.All P) : ∀ entry ∈ env.visible, entry.2.All P := by
  have hfold : ∀ (is : List Nat) (seen : OrderedMap Binding),
      (∀ entry ∈ seen, entry.2.All P) →
      ∀ entry ∈ is.foldl (fun seen i => Environment.addVisible seen (env.scope i).bindings) seen,
        entry.2.All P := by
    intro is
    induction is with
    | nil => exact fun seen hseen => hseen
    | cons i is ih => exact fun seen hseen => ih _ (addVisible hseen (h i))
  exact hfold env.chain [] (by simp)

theorem capture (h : env.All P) : ∀ entry ∈ env.capture, P entry.2.value := by
  intro entry hentry
  obtain ⟨b, hb, rfl⟩ := List.mem_map.1 hentry
  exact (h.visible b hb).value

/-! ### Changes -/

theorem declare (h : env.All P) {mode : Mode} {name : String} {v : Value} {span : Option Span}
    (hv : P v) (hok : env.declare mode name v span = .ok env') : env'.All P := by
  obtain ⟨-, rfl⟩ := declare_ok hok
  refine h.modifyScope _ fun bindings hbindings => ?_
  exact List.forall_mem_append.2 ⟨hbindings, by simpa using Binding.All.fresh hv mode span⟩

theorem define (h : env.All P) (name : String) {v : Value} (hv : P v) (mode : Mode) :
    (env.define name v mode).All P := by
  refine h.modifyScope _ fun bindings hbindings entry hentry => ?_
  rcases OrderedMap.mem_put hentry with hentry | heq
  · exact hbindings _ hentry
  · rw [heq]
    exact Binding.All.fresh hv mode none

theorem setLocal (h : env.All P) (name : String) {v : Value} (hv : P v) :
    (env.setLocal name v).All P :=
  h.adjust _ name fun _ hb => hb.withValue hv

theorem modifyBinding (h : env.All P) (name : String) {f : Binding → Binding}
    (hf : ∀ b : Binding, b.All P → (f b).All P) : (env.modifyBinding name f).All P := by
  unfold Environment.modifyBinding
  split
  · exact h
  · exact h.adjust _ name hf

theorem foldl_modifyBinding {f : Binding → Binding} (hf : ∀ b : Binding, b.All P → (f b).All P)
    (names : List String) (h : env.All P) :
    (names.foldl (fun env name => env.modifyBinding name f) env).All P := by
  induction names generalizing env with
  | nil => exact h
  | cons name names ih => exact ih (h.modifyBinding name hf)

theorem register (h : env.All P) {targets : List String} {handler : Value} (hv : P handler)
    (hok : Rule.register targets handler env = .ok env') : env'.All P := by
  unfold Rule.register at hok
  split at hok
  · unfold Environment.observe at hok
    split at hok
    · cases hok
      exact h.modifyBinding _ fun _ hb => hb.withObserver hv
    · cases hok
  · unfold Environment.observeMany at hok
    split at hok
    · cases hok
    · cases hok
      exact foldl_modifyBinding (fun _ hb => hb.withRegistration hv) targets h

/-! ### Scopes -/

theorem pushBlock (h : env.All P) : env.pushBlock.All P := by
  refine h.of_subset fun i => ?_
  rcases Nat.lt_trichotomy i env.depth with hi | rfl | hi
  · rw [scope_pushBlock_of_lt hi]
    exact List.Subset.refl _
  · rw [scope_pushBlock_self]
    exact List.nil_subset _
  · rw [scope_of_le (by rw [depth_pushBlock]; omega)]
    exact List.nil_subset _

theorem pop (h : env.All P) : env.pop.All P := by
  refine h.of_subset fun i => ?_
  by_cases hone : 1 < env.depth
  · by_cases hi : i < env.depth - 1
    · rw [scope_pop_of_lt hi]
      exact List.Subset.refl _
    · rw [scope_of_le (by rw [depth_pop hone]; omega)]
      exact List.nil_subset _
  · have hpop : env.pop = env := if_neg hone
    rw [hpop]
    exact List.Subset.refl _

theorem endCall (h : env.All P) : env.endCall.All P := h.pop.pop

theorem closureBindings {f : Function} {self : Value} (hself : P self)
    (hclosure : ∀ entry ∈ f.closure, P entry.2.value) :
    ∀ entry ∈ Environment.closureBindings f self, entry.2.All P := by
  have hcaptured : ∀ entry ∈ f.closure.map fun entry : String × Captured =>
      (entry.1, ({ mode := entry.2.mode, value := entry.2.value } : Binding)), entry.2.All P := by
    intro entry hentry
    obtain ⟨c, hc, rfl⟩ := List.mem_map.1 hentry
    exact Binding.All.fresh (hclosure c hc) _ _
  unfold Environment.closureBindings
  dsimp only
  split
  · split
    · exact hcaptured
    · intro entry hentry
      rcases OrderedMap.mem_put hentry with hentry | heq
      · exact hcaptured _ hentry
      · rw [heq]
        exact Binding.All.fresh hself _ _
  · exact hcaptured

theorem beginCall (h : env.All P) {f : Function} {self : Value} (hself : P self)
    (hclosure : ∀ entry ∈ f.closure, P entry.2.value) (hok : env.beginCall f self = .ok env') :
    env'.All P := by
  intro i entry hentry
  rcases Nat.lt_trichotomy i env.depth with hi | rfl | hi
  · rw [scope_beginCall_of_lt hok hi] at hentry
    exact h i entry hentry
  · rw [scope_beginCall_closure hok] at hentry
    exact closureBindings hself hclosure entry hentry
  · rcases Nat.eq_or_lt_of_le hi with rfl | hi
    · rw [scope_beginCall_function hok] at hentry
      cases hentry
    · rw [scope_of_le (by rw [depth_beginCall hok]; exact hi)] at hentry
      cases hentry

theorem bindParams (h : env.All P) (hnull : P .null) (params : List String) {args : List Value}
    (hargs : ∀ v ∈ args, P v) : (Rule.bindParams env params args).All P := by
  induction params generalizing env args with
  | nil => exact h
  | cons param params ih =>
    cases args with
    | nil => exact ih (h.define param hnull .mutable) hargs
    | cons arg args =>
      rw [List.forall_mem_cons] at hargs
      exact ih (h.define param hargs.1 .mutable) hargs.2

theorem bindCall (h : env.All P) (hnull : P .null) (params : List String) {args : List Value}
    {receiver : Option Value} (hargs : ∀ v ∈ args, P v) (hreceiver : ∀ v ∈ receiver, P v) :
    (Rule.bindCall env params args receiver).All P := by
  refine (h.define Rule.thisName ?_ .immutable).bindParams hnull params hargs
  cases receiver with
  | none => exact hnull
  | some v => exact hreceiver v rfl

end Environment.All

end ReactiveScript
