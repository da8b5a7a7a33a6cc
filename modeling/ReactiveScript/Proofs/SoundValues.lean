import Mathlib.Logic.Relation
import ReactiveScript.Proofs.Signals
import ReactiveScript.Proofs.VariableValues

/-!
# Sound values

A value is *sound* in a store if all functions that can be reached from it keep to given signals.
Containers are shared and can be written to, so soundness is no property of a value alone. What
makes it manageable is `Store.grows_of_tables`: whatever is done to a store, all sound values stay
sound if the new links lead to sound values only.
-/

namespace ReactiveScript

/-! ## Reachable values -/

namespace Store

/-- One value holds another. -/
inductive Holds (st : Store) : Value → Value → Prop where
  | element {ref : Ref} {v : Value} (h : v ∈ st.list ref) : Holds st (.list ref) v
  | entry {ref : Ref} {key : String} {v : Value} (h : (key, v) ∈ st.record ref) :
    Holds st (.record ref) v
  | field {ref : Ref} {key : String} {v : Value} (h : (key, v) ∈ (st.host ref).fields) :
    Holds st (.host ref) v
  | receiver (ref : Ref) (name : String) : Holds st (.method ref name) (.host ref)
  | captured {ref : Ref} {key : String} {c : Captured} (h : (key, c) ∈ (st.function ref).closure) :
    Holds st (.function ref) c.value

/-- One value leads to another, through any number of others. -/
def Reaches (st : Store) : Value → Value → Prop := Relation.ReflTransGen st.Holds

/-- All functions that a value leads to keep to the signals `bodies`. -/
def Sound (bodies : Signals) (st : Store) (v : Value) : Prop :=
  ∀ ref, st.Reaches v (.function ref) → Stmt.areScoped bodies bodies (st.function ref).body = true

/-- All that was sound is still sound. -/
def Grows (bodies : Signals) (st st' : Store) : Prop :=
  ∀ v, st.Sound bodies v → st'.Sound bodies v

variable {bodies : Signals} {st st' st'' : Store} {v w : Value}

theorem Grows.refl (st : Store) : st.Grows bodies st := fun _ h => h

theorem Grows.trans (h : st.Grows bodies st') (h' : st'.Grows bodies st'') :
    st.Grows bodies st'' :=
  fun v hv => h' v (h v hv)

theorem Sound.of_holds (h : st.Sound bodies v) (hw : st.Holds v w) : st.Sound bodies w :=
  fun ref href => h ref (.head hw href)

theorem Sound.body {ref : Ref} (h : st.Sound bodies (.function ref)) :
    Stmt.areScoped bodies bodies (st.function ref).body = true :=
  h ref .refl

/-- A function whose body is scoped and whose closure holds sound values. -/
structure Fits (bodies : Signals) (st : Store) (f : Function) : Prop where
  body : Stmt.areScoped bodies bodies f.body = true
  closure : ∀ entry ∈ f.closure, st.Sound bodies entry.2.value

/-- What was sound is still sound if all that is new in the tables of the store is sound. -/
theorem grows_of_tables
    (hlist : ∀ ref, ∀ v ∈ st'.list ref, v ∈ st.list ref ∨ st.Sound bodies v)
    (hrecord : ∀ ref, ∀ entry ∈ st'.record ref,
      entry ∈ st.record ref ∨ st.Sound bodies entry.2)
    (hhost : ∀ ref, ∀ field ∈ (st'.host ref).fields,
      field ∈ (st.host ref).fields ∨ st.Sound bodies field.2)
    (hfunction : ∀ ref, st'.function ref = st.function ref ∨
      st.Fits bodies (st'.function ref)) : st.Grows bodies st' := by
  have hstep : ∀ v w, st'.Holds v w → st.Sound bodies v → st.Sound bodies w := by
    intro v w hw hv
    cases hw with
    | element hw => exact (hlist _ _ hw).elim (fun h => hv.of_holds (.element h)) id
    | entry hw => exact (hrecord _ _ hw).elim (fun h => hv.of_holds (.entry h)) id
    | field hw => exact (hhost _ _ hw).elim (fun h => hv.of_holds (.field h)) id
    | receiver ref name => exact hv.of_holds (.receiver ref name)
    | @captured ref key c hw =>
      rcases hfunction ref with hsame | hfits
      · rw [hsame] at hw
        exact hv.of_holds (.captured hw)
      · exact hfits.closure _ hw
  intro v hv ref hreach
  have hsound : ∀ w, st'.Reaches v w → st.Sound bodies w := by
    intro w hw
    induction hw with
    | refl => exact hv
    | tail _ hw ih => exact hstep _ _ hw ih
  rcases hfunction ref with hsame | hfits
  · rw [hsame]
    exact (hsound _ hreach).body
  · exact hfits.body

/-- A value that holds nothing is sound, unless it is a function. -/
theorem sound_of_not_holds (h : ∀ w, ¬ st.Holds v w)
    (hbody : ∀ ref, v = .function ref →
      Stmt.areScoped bodies bodies (st.function ref).body = true) : st.Sound bodies v := by
  intro ref hreach
  rcases Relation.ReflTransGen.cases_head hreach with rfl | ⟨w, hw, -⟩
  · exact hbody ref rfl
  · exact absurd hw (h w)

theorem sound_of_isPrimitive (h : v.isPrimitive = true) : st.Sound bodies v := by
  refine sound_of_not_holds (fun w hw => ?_) fun ref hv => ?_
  · cases hw <;> cases h
  · subst hv
    cases h

theorem sound_null : st.Sound bodies .null := sound_of_isPrimitive rfl

theorem sound_string (text : String) : st.Sound bodies (.string text) := sound_of_isPrimitive rfl

/-- A method is as sound as its receiver. -/
theorem sound_method {ref : Ref} (h : st.Sound bodies (.host ref)) (name : String) :
    st.Sound bodies (.method ref name) := by
  intro f hreach
  rcases Relation.ReflTransGen.cases_head hreach with hf | ⟨w, hw, hrest⟩
  · cases hf
  · cases hw
    exact h f hrest

/-- If all signals are expected, everything is sound. -/
theorem sound_all (st : Store) (v : Value) : st.Sound .all v := fun _ _ => isScoped_all.2.2 _

/-! ## Changes of a store -/

theorem grows_newList {items : Array Value} (h : ∀ v ∈ items, st.Sound bodies v) :
    st.Grows bodies (st.newList items).2 := by
  refine grows_of_tables (fun ref v hv => ?_) (fun _ _ => Or.inl) (fun _ _ => Or.inl)
    fun _ => Or.inl rfl
  simp only [newList, list, Array.getD_eq_getD_getElem?, Array.getElem?_push] at hv ⊢
  split at hv
  · exact Or.inr (h v hv)
  · exact Or.inl hv

/-- The place of a new list held nothing before. -/
theorem sound_newList {items : Array Value} (h : ∀ v ∈ items, st.Sound bodies v) :
    (st.newList items).2.Sound bodies (st.newList items).1 := by
  refine grows_newList h _ (sound_of_not_holds (fun w hw => ?_) fun _ hv => by cases hv)
  cases hw with
  | element hw => simp [list] at hw

theorem grows_newRecord {entries : OrderedMap Value}
    (h : ∀ entry ∈ entries, st.Sound bodies entry.2) :
    st.Grows bodies (st.newRecord entries).2 := by
  refine grows_of_tables (fun _ _ => Or.inl) (fun ref entry hentry => ?_) (fun _ _ => Or.inl)
    fun _ => Or.inl rfl
  simp only [newRecord, record, Array.getD_eq_getD_getElem?, Array.getElem?_push] at hentry ⊢
  split at hentry
  · exact Or.inr (h entry hentry)
  · exact Or.inl hentry

theorem sound_newRecord {entries : OrderedMap Value}
    (h : ∀ entry ∈ entries, st.Sound bodies entry.2) :
    (st.newRecord entries).2.Sound bodies (st.newRecord entries).1 := by
  refine grows_newRecord h _ (sound_of_not_holds (fun w hw => ?_) fun _ hv => by cases hv)
  cases hw with
  | entry hw => simp [record] at hw

theorem grows_newFunction {f : Function} (hf : st.Fits bodies f) :
    st.Grows bodies (st.newFunction f).2 := by
  refine grows_of_tables (fun _ _ => Or.inl) (fun _ _ => Or.inl) (fun _ _ => Or.inl) fun ref => ?_
  simp only [newFunction, function, Array.getD_eq_getD_getElem?, Array.getElem?_push]
  split
  · exact Or.inr hf
  · exact Or.inl rfl

theorem sound_newFunction {f : Function} (hf : st.Fits bodies f) :
    (st.newFunction f).2.Sound bodies (st.newFunction f).1 := by
  refine grows_newFunction hf _ (sound_of_not_holds (fun w hw => ?_) fun ref hv => ?_)
  · cases hw with
    | captured hw => simp [function] at hw
  · cases hv
    simp [function, Stmt.areScoped]

/-- A write is sound if it writes sound values. -/
def Write.Sound (bodies : Signals) (st : Store) : Write → Prop
  | .element _ _ value | .entry _ _ value => st.Sound bodies value
  | .fields _ values => ∀ field ∈ values, st.Sound bodies field.2

theorem mem_writeElement {items : Array Value} {i : Nat} {value : Value}
    (h : v ∈ writeElement items i value) : v ∈ items ∨ v = value ∨ v = .null := by
  unfold writeElement at h
  split at h
  · exact (Array.mem_or_eq_of_mem_setIfInBounds h).imp_right Or.inl
  · simp only [Array.mem_push, Array.mem_append, Array.mem_replicate] at h
    rcases h with (h | ⟨-, h⟩) | h
    · exact Or.inl h
    · exact Or.inr (Or.inr h)
    · exact Or.inr (Or.inl h)

theorem grows_write {write : Write} (h : write.Sound bodies st) :
    st.Grows bodies (st.write write) := by
  cases write with
  | element ref i value =>
    refine grows_of_tables (fun ref' v hv => ?_) (fun _ _ => Or.inl) (fun _ _ => Or.inl)
      fun _ => Or.inl rfl
    simp only [Store.write, list, Array.getD_eq_getD_getElem?, Array.getElem?_modify] at hv ⊢
    split at hv
    · cases hitems : st.lists[ref']? with
      | none => simp [hitems] at hv
      | some items =>
        rw [hitems] at hv
        rcases mem_writeElement hv with hv | rfl | rfl
        · exact Or.inl hv
        · exact Or.inr h
        · exact Or.inr sound_null
    · exact Or.inl hv
  | entry ref key value =>
    refine grows_of_tables (fun _ _ => Or.inl) (fun ref' entry hentry => ?_) (fun _ _ => Or.inl)
      fun _ => Or.inl rfl
    simp only [Store.write, record, Array.getD_eq_getD_getElem?, Array.getElem?_modify] at hentry ⊢
    split at hentry
    · cases hentries : st.records[ref']? with
      | none => simp [hentries] at hentry
      | some entries =>
        rw [hentries] at hentry
        rcases OrderedMap.mem_put hentry with hentry | hvalue
        · exact Or.inl hentry
        · rw [hvalue]
          exact Or.inr h
    · exact Or.inl hentry
  | fields ref values =>
    refine grows_of_tables (fun _ _ => Or.inl) (fun _ _ => Or.inl) (fun ref' field hfield => ?_)
      fun _ => Or.inl rfl
    simp only [Store.write, host, Array.getD_eq_getD_getElem?, Array.getElem?_modify] at hfield ⊢
    split at hfield
    · cases hobject : st.hosts[ref']? with
      | none => simp [hobject] at hfield
      | some object =>
        rw [hobject] at hfield
        exact Or.inr (h field hfield)
    · exact Or.inl hfield

end Store

/-! ## Hosts and states -/

/-- A reply that is sound: what was sound before is so afterwards, and the result is. -/
structure Reply.Sound (bodies : Signals) (st : Store) (reply : Reply) : Prop where
  grows : st.Grows bodies reply.store
  result : ∀ v, reply.result = .ok v → reply.store.Sound bodies v

/-- Host code that gives and stores no values but sound ones, if it gets no others. -/
structure HostLibrary.Sound (bodies : Signals) (lib : HostLibrary) : Prop where
  builtin (name : String) {args : List Value} {st : Store} :
    (∀ v ∈ args, st.Sound bodies v) → (lib.builtin name args st).Sound bodies st
  invoke {st : Store} {ref : Ref} (method : String) {args : List Value} :
    st.Sound bodies (.host ref) → (∀ v ∈ args, st.Sound bodies v) →
      (lib.invoke st ref method args).Sound bodies st
  property {st : Store} {ref : Ref} {name : String} {v : Value} :
    st.Sound bodies (.host ref) → lib.property? st ref name = some v → st.Sound bodies v
  setProperty {st : Store} {ref : Ref} {name : String} {v : Value} {write : Store.Write} :
    st.Sound bodies (.host ref) → st.Sound bodies v →
      lib.setProperty st ref name v = .ok write → write.Sound bodies st
  enumerate {st : Store} {ref : Ref} {items : List Value} :
    st.Sound bodies (.host ref) → lib.enumerate? st ref = some items →
      ∀ v ∈ items, st.Sound bodies v

/-- A notification with sound values. -/
structure Notification.Sound (bodies : Signals) (st : Store) (task : Notification) : Prop where
  handler : st.Sound bodies task.handler
  args : ∀ v ∈ task.args, st.Sound bodies v

/-- A state in which programs find no values but sound ones: in variables, among their observers, in
waiting notifications, and among the globals and modules of the host. -/
structure State.Sound (ctx : Context) (bodies : Signals) (s : State) : Prop where
  env : s.env.All (s.store.Sound bodies)
  tasks : ∀ entry ∈ s.queue.entries, entry.2.Sound bodies s.store
  globals : ∀ entry ∈ ctx.globals, s.store.Sound bodies entry.2
  modules : ∀ modules, ctx.modules = some modules →
    ∀ entry ∈ modules, ∀ exported ∈ entry.2, s.store.Sound bodies exported.2

/-- What was sound is sound in the later state too, and an interruption is not taken back. -/
structure State.Grows (bodies : Signals) (s s' : State) : Prop where
  flag : s.interrupted = true → s'.interrupted = true
  store : s.store.Grows bodies s'.store

namespace State

variable {ctx : Context} {bodies : Signals} {s s₁ s₂ : State}

theorem Grows.refl (s : State) : s.Grows bodies s := ⟨id, .refl _⟩

theorem Grows.trans (h : s.Grows bodies s₁) (h' : s₁.Grows bodies s₂) : s.Grows bodies s₂ :=
  ⟨fun hs => h'.flag (h.flag hs), h.store.trans h'.store⟩

theorem Grows.sound {v : Value} (h : s.Grows bodies s₁) (hv : s.store.Sound bodies v) :
    s₁.store.Sound bodies v :=
  h.store v hv

theorem Sound.withEnv (h : s.Sound ctx bodies) {env : Environment}
    (henv : env.All (s.store.Sound bodies)) : State.Sound ctx bodies { s with env } :=
  { h with env := henv }

theorem Sound.withStore (h : s.Sound ctx bodies) {store : Store}
    (hstore : s.store.Grows bodies store) : State.Sound ctx bodies { s with store } where
  env := h.env.imp hstore
  tasks entry hentry := ⟨hstore _ (h.tasks entry hentry).handler,
    fun v hv => hstore v ((h.tasks entry hentry).args v hv)⟩
  globals entry hentry := hstore _ (h.globals entry hentry)
  modules modules hmodules entry hentry exported hexported :=
    hstore _ (h.modules modules hmodules entry hentry exported hexported)

theorem Sound.enqueue (h : s.Sound ctx bodies) {task : Notification}
    (htask : task.Sound bodies s.store) : (Rule.enqueue task s).Sound ctx bodies := by
  refine { h with tasks := fun entry hentry => ?_ }
  rw [Rule.enqueue, TaskQueue.entries_schedule, List.mem_append, List.mem_singleton] at hentry
  rcases hentry with hentry | rfl
  · exact h.tasks entry hentry
  · exact htask

/-- If all signals are expected, every state is sound. -/
theorem sound_all (ctx : Context) (s : State) : s.Sound ctx .all where
  env _ _ _ := ⟨Store.sound_all _ _, fun _ _ => Store.sound_all _ _,
    fun _ _ => Store.sound_all _ _⟩
  tasks _ _ := ⟨Store.sound_all _ _, fun _ _ => Store.sound_all _ _⟩
  globals _ _ := Store.sound_all _ _
  modules _ _ _ _ _ _ := Store.sound_all _ _

end State

/-- If all signals are expected, all host code is sound. -/
theorem HostLibrary.sound_all (lib : HostLibrary) : lib.Sound .all where
  builtin _ _ _ _ := ⟨fun _ _ => Store.sound_all _ _, fun _ _ => Store.sound_all _ _⟩
  invoke _ _ _ _ := ⟨fun _ _ => Store.sound_all _ _, fun _ _ => Store.sound_all _ _⟩
  property _ _ := Store.sound_all _ _
  setProperty {_ _ _ _ write} _ _ _ := by
    cases write with
    | element | entry => exact Store.sound_all _ _
    | fields => exact fun _ _ => Store.sound_all _ _
  enumerate _ _ _ _ := Store.sound_all _ _

end ReactiveScript
