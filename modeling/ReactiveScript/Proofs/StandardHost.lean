import ReactiveScript.Host.Globals
import ReactiveScript.Proofs.SoundValues

/-!
# Soundness of the standard host

The console stores nothing, and the JSON object makes no values but plain data. So a fresh
interpreter with the standard globals is sound, whatever signals functions have to keep to.
-/

namespace ReactiveScript

variable {bodies : Signals} {st : Store}

namespace Store

theorem grows_writeLine (line : String) : st.Grows bodies (st.writeLine line) :=
  grows_of_tables (fun _ _ => Or.inl) (fun _ _ => Or.inl) (fun _ _ => Or.inl) fun _ => Or.inl rfl

/-- A host object that holds nothing makes no new links. -/
theorem grows_newHost (typeName : String) : st.Grows bodies (st.newHost ⟨typeName, []⟩).2 := by
  refine grows_of_tables (fun _ _ => Or.inl) (fun _ _ => Or.inl) (fun ref field hfield => ?_)
    fun _ => Or.inl rfl
  simp only [newHost, host, Array.getD_eq_getD_getElem?, Array.getElem?_push] at hfield ⊢
  split at hfield
  · cases hfield
  · exact Or.inl hfield

theorem sound_newHost (typeName : String) :
    (st.newHost ⟨typeName, []⟩).2.Sound bodies (st.newHost ⟨typeName, []⟩).1 := by
  refine grows_newHost typeName _ (sound_of_not_holds (fun w hw => ?_) fun _ hv => by cases hv)
  cases hw with
  | field hw => simp [host] at hw

end Store

/-! ## JSON -/

namespace Json

mutual

/-- The value of a tree leads to no function at all. -/
theorem sound_toValue (j : Json) (st : Store) :
    st.Grows bodies (j.toValue st).2 ∧ (j.toValue st).2.Sound bodies (j.toValue st).1 := by
  cases j with
  | null | bool | number | string => exact ⟨.refl st, Store.sound_of_isPrimitive rfl⟩
  | array items =>
    obtain ⟨hgrows, hvalues⟩ := sound_toValues items #[] st fun _ hv => by simp at hv
    exact ⟨hgrows.trans (Store.grows_newList hvalues), Store.sound_newList hvalues⟩
  | object entries =>
    obtain ⟨hgrows, hvalues⟩ := sound_toEntries entries [] st fun _ hentry => by cases hentry
    exact ⟨hgrows.trans (Store.grows_newRecord hvalues), Store.sound_newRecord hvalues⟩

theorem sound_toValues (js : List Json) (made : Array Value) (st : Store)
    (h : ∀ v ∈ made, st.Sound bodies v) :
    st.Grows bodies (toValues js made st).2 ∧
      ∀ v ∈ (toValues js made st).1, (toValues js made st).2.Sound bodies v := by
  cases js with
  | nil => exact ⟨.refl st, h⟩
  | cons j js =>
    obtain ⟨hgrows, hvalue⟩ := sound_toValue j st
    obtain ⟨hgrows', hvalues⟩ := sound_toValues js (made.push (j.toValue st).1) (j.toValue st).2
      fun v hv => by
        rcases Array.mem_push.1 hv with hv | rfl
        · exact hgrows v (h v hv)
        · exact hvalue
    exact ⟨hgrows.trans hgrows', hvalues⟩

theorem sound_toEntries (entries : List (String × Json)) (made : OrderedMap Value) (st : Store)
    (h : ∀ entry ∈ made, st.Sound bodies entry.2) :
    st.Grows bodies (toEntries entries made st).2 ∧
      ∀ entry ∈ (toEntries entries made st).1,
        (toEntries entries made st).2.Sound bodies entry.2 := by
  cases entries with
  | nil => exact ⟨.refl st, h⟩
  | cons entry entries =>
    obtain ⟨key, j⟩ := entry
    obtain ⟨hgrows, hvalue⟩ := sound_toValue j st
    obtain ⟨hgrows', hvalues⟩ := sound_toEntries entries (OrderedMap.put made key (j.toValue st).1)
      (j.toValue st).2 fun entry hentry => by
        rcases OrderedMap.mem_put hentry with hentry | hv
        · exact hgrows _ (h _ hentry)
        · rw [hv]
          exact hvalue
    exact ⟨hgrows.trans hgrows', hvalues⟩

end

end Json

/-! ## The library -/

theorem Reply.sound_error (message : String) :
    Sound bodies st { result := .error message, store := st } :=
  ⟨.refl st, fun _ hv => by cases hv⟩

namespace HostClass

theorem sound_parseJson (args : List Value) : (parseJson args st).Sound bodies st := by
  unfold parseJson
  split
  · exact Reply.sound_error _
  · split
    · exact Reply.sound_error _
    · rename_i j _
      obtain ⟨hgrows, hvalue⟩ := j.sound_toValue st
      exact ⟨hgrows, fun v hv => by cases hv; exact hvalue⟩

theorem sound_stringify (args : List Value) :
    Reply.Sound bodies st { result := stringify args st, store := st } := by
  refine ⟨.refl st, fun v hv => ?_⟩
  unfold stringify at hv
  split at hv <;> cases hv
  exact Store.sound_string _

theorem sound_json (ref : Ref) (method : String) (args : List Value) :
    (json.invoke ref method args st).Sound bodies st := by
  unfold json
  dsimp only
  split
  · exact sound_stringify args
  · split
    · exact sound_parseJson args
    · exact Reply.sound_error _

theorem sound_console (ref : Ref) (method : String) (args : List Value) :
    (console.invoke ref method args st).Sound bodies st := by
  unfold console
  dsimp only
  split
  · exact ⟨Store.grows_writeLine _, fun v hv => by cases hv; exact Store.sound_null⟩
  · exact Reply.sound_error _

end HostClass

namespace Host

theorem classAt_standardLibrary (st : Store) (ref : Ref) :
    standardLibrary.classAt st ref = .console ∨ standardLibrary.classAt st ref = .json ∨
      standardLibrary.classAt st ref = .inert := by
  unfold HostLibrary.classAt standardLibrary
  dsimp only
  split
  · exact Or.inl rfl
  · split
    · exact Or.inr (Or.inl rfl)
    · exact Or.inr (Or.inr rfl)

theorem sound_standardLibrary : standardLibrary.Sound bodies where
  builtin name _ _ _ := Reply.sound_error _
  invoke {st ref} method args _ _ := by
    unfold HostLibrary.invoke
    rcases classAt_standardLibrary st ref with h | h | h <;> rw [h]
    · exact HostClass.sound_console ref method args
    · exact HostClass.sound_json ref method args
    · exact Reply.sound_error _
  property {st ref name v} _ h := by
    -- No type has a property that can be read.
    unfold HostLibrary.property? at h
    rcases classAt_standardLibrary st ref with hclass | hclass | hclass <;>
      rw [hclass] at h <;> cases h
  setProperty {st ref name v write} _ _ h := by
    unfold HostLibrary.setProperty at h
    rcases classAt_standardLibrary st ref with hclass | hclass | hclass <;>
      rw [hclass] at h <;> cases h
  enumerate {st ref items} _ h := by
    unfold HostLibrary.enumerate? at h
    rcases classAt_standardLibrary st ref with hclass | hclass | hclass <;>
      rw [hclass] at h <;> cases h

theorem sound_standardGlobals (st : Store) :
    st.Grows bodies (standardGlobals st).2 ∧
      ∀ entry ∈ (standardGlobals st).1, (standardGlobals st).2.Sound bodies entry.2 := by
  have hjson : (st.newHost ⟨"console", []⟩).2.Grows bodies
      ((st.newHost ⟨"console", []⟩).2.newHost ⟨"JSON", []⟩).2 :=
    Store.grows_newHost "JSON"
  refine ⟨(Store.grows_newHost "console").trans hjson, ?_⟩
  simp only [standardGlobals, List.forall_mem_cons]
  exact ⟨hjson _ (Store.sound_newHost "console"), Store.sound_newHost "JSON", Store.sound_null,
    Store.sound_of_isPrimitive rfl, Store.sound_of_isPrimitive rfl, fun _ hnil => by cases hnil⟩

/-- An interpreter with the standard globals. -/
def standardContext : Context := { library := standardLibrary, globals := (standardGlobals {}).1 }

/-- Its state before it has done anything. -/
def standardStart : State := { store := (standardGlobals {}).2 }

theorem sound_standardStart : standardStart.Sound standardContext bodies where
  env i entry hentry := by
    have hscope : (standardStart.env.scope i).bindings = [] := by
      cases i <;> rfl
    rw [hscope] at hentry
    cases hentry
  tasks entry hentry := by cases hentry
  globals := (sound_standardGlobals {}).2
  modules modules hmodules := by cases hmodules

end Host

end ReactiveScript
