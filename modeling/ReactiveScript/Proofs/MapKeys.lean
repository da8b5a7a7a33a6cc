import Mathlib.Data.List.Induction
import Mathlib.Data.List.Nodup
import ReactiveScript.OrderedMap

/-!
# Keys and values of maps

What inserting and changing entries does to the keys of a map and to the value of each key.
Inserting never repeats a key, so that a map built by insertions has distinct keys.
-/

namespace ReactiveScript

namespace OrderedMap

variable {α β : Type} {m : OrderedMap α} {key k : String} {a : α} {f : α → α}

/-! ## Keys -/

@[simp]
theorem keys_nil : keys ([] : OrderedMap α) = [] := rfl

@[simp]
theorem keys_cons (k : String) (a : α) (m : OrderedMap α) : keys ((k, a) :: m) = k :: keys m := rfl

@[simp]
theorem keys_append (m m' : OrderedMap α) : keys (m ++ m') = keys m ++ keys m' :=
  List.map_append

/-- Changing the values leaves the keys. -/
theorem keys_map (g : α → β) (m : OrderedMap α) :
    keys (m.map fun entry => (entry.1, g entry.2)) = keys m := by
  simp [keys]

@[simp]
theorem keys_adjust (m : OrderedMap α) (key : String) (f : α → α) :
    keys (adjust m key f) = keys m := by
  induction m with
  | nil => rfl
  | cons entry m ih =>
    obtain ⟨k, a⟩ := entry
    unfold adjust
    split
    · rfl
    · rw [keys_cons, keys_cons, ih]

theorem has_iff_mem_keys : has m key = true ↔ key ∈ keys m := by
  unfold has
  induction m with
  | nil => simp [find?]
  | cons entry m ih =>
    obtain ⟨k, a⟩ := entry
    rw [find?, keys_cons, List.mem_cons]
    split
    · rename_i hk
      simp [hk]
    · rename_i hk
      rw [ih]
      simp [Ne.symm hk]

theorem not_mem_keys_of_has (h : has m key = false) : key ∉ keys m := by
  intro hmem
  rw [has_iff_mem_keys.2 hmem] at h
  cases h

/-- A key that is present keeps its position, and a new one comes last. -/
theorem keys_put (m : OrderedMap α) (key : String) (a : α) :
    keys (put m key a) = if key ∈ keys m then keys m else keys m ++ [key] := by
  induction m with
  | nil => rfl
  | cons entry m ih =>
    obtain ⟨k, b⟩ := entry
    unfold put
    by_cases hk : k = key
    · simp [hk]
    · rw [if_neg hk, keys_cons, keys_cons, ih]
      by_cases hmem : key ∈ keys m
      · simp [hmem]
      · simp [hmem, Ne.symm hk]

/-- A new key comes last. -/
theorem put_eq_concat (h : has m key = false) (a : α) : put m key a = m ++ [(key, a)] := by
  induction m with
  | nil => rfl
  | cons entry m ih =>
    obtain ⟨k, b⟩ := entry
    have hmem := not_mem_keys_of_has h
    rw [keys_cons, List.mem_cons, not_or] at hmem
    have hrest : has m key = false := by
      rw [← Bool.not_eq_true, has_iff_mem_keys]
      exact hmem.2
    rw [put, if_neg (Ne.symm hmem.1), ih hrest, List.cons_append]

theorem nodup_keys_concat (h : (keys m).Nodup) (hnew : key ∉ keys m) (a : α) :
    (keys (m ++ [(key, a)])).Nodup := by
  rw [keys_append]
  exact h.append (List.nodup_singleton key) (by simpa using hnew)

theorem nodup_keys_put (h : (keys m).Nodup) (key : String) (a : α) :
    (keys (put m key a)).Nodup := by
  rw [keys_put]
  split
  · exact h
  · rename_i hnew
    have hconcat := nodup_keys_concat h hnew a
    rw [keys_append] at hconcat
    exact hconcat

/-- An element that comes last is kept if it is new. -/
theorem eraseDups_concat (l : List String) (k : String) :
    (l ++ [k]).eraseDups = if k ∈ l then l.eraseDups else l.eraseDups ++ [k] := by
  rw [List.eraseDups_append]
  by_cases hk : k ∈ l
  · simp [List.removeAll, hk]
  · simp [List.removeAll, hk, List.eraseDups_cons]

/-- A map that is built from entries has each of their keys once, where it comes first. -/
theorem keys_ofEntries (entries : List (String × α)) :
    keys (ofEntries entries) = (entries.map Prod.fst).eraseDups := by
  induction entries using List.reverseRecOn with
  | nil => rfl
  | append_singleton entries entry ih =>
    have hlast : ofEntries (entries ++ [entry]) = put (ofEntries entries) entry.1 entry.2 :=
      List.foldl_concat ..
    rw [hlast, keys_put, ih, List.map_append, List.map_singleton, eraseDups_concat]
    simp only [List.mem_eraseDups]

/-! ## Values -/

theorem find?_map (g : α → β) (m : OrderedMap α) (key : String) :
    find? (m.map fun entry => (entry.1, g entry.2)) key = (find? m key).map g := by
  induction m with
  | nil => rfl
  | cons entry m ih =>
    obtain ⟨k, a⟩ := entry
    rw [List.map_cons, find?, find?]
    split
    · rfl
    · exact ih

theorem find?_adjust_self (m : OrderedMap α) (key : String) (f : α → α) :
    find? (adjust m key f) key = (find? m key).map f := by
  induction m with
  | nil => rfl
  | cons entry m ih =>
    obtain ⟨k, a⟩ := entry
    unfold adjust
    split
    · rename_i hk
      simp [find?, hk]
    · rename_i hk
      rw [find?, find?, if_neg hk, if_neg hk, ih]

theorem find?_adjust_ne (h : k ≠ key) : find? (adjust m key f) k = find? m k := by
  induction m with
  | nil => rfl
  | cons entry m ih =>
    obtain ⟨k', a⟩ := entry
    unfold adjust
    split
    · rename_i hk
      have hne : k' ≠ k := by rw [hk]; exact Ne.symm h
      rw [find?, find?, if_neg hne, if_neg hne]
    · rw [find?, find?, ih]

@[simp]
theorem has_adjust (m : OrderedMap α) (key : String) (f : α → α) (k : String) :
    has (adjust m key f) k = has m k := by
  rw [Bool.eq_iff_iff, has_iff_mem_keys, has_iff_mem_keys, keys_adjust]

/-- What is appended does not hide what is there. -/
theorem find?_append (h : find? m key = some a) (m' : OrderedMap α) :
    find? (m ++ m') key = some a := by
  induction m with
  | nil => cases h
  | cons entry m ih =>
    obtain ⟨k, b⟩ := entry
    rw [find?] at h
    rw [List.cons_append, find?]
    split
    · rename_i hk
      rw [if_pos hk] at h
      exact h
    · rename_i hk
      rw [if_neg hk] at h
      exact ih h

theorem find?_put_self (m : OrderedMap α) (key : String) (a : α) :
    find? (put m key a) key = some a := by
  induction m with
  | nil => simp [put, find?]
  | cons entry m ih =>
    obtain ⟨k, b⟩ := entry
    unfold put
    split
    · rename_i hk
      simp [find?, hk]
    · rename_i hk
      rw [find?, if_neg hk, ih]

theorem find?_put_ne (h : k ≠ key) : find? (put m key a) k = find? m k := by
  induction m with
  | nil => simp [put, find?, Ne.symm h]
  | cons entry m ih =>
    obtain ⟨k', b⟩ := entry
    unfold put
    split
    · rename_i hk
      have hne : k' ≠ k := by rw [hk]; exact Ne.symm h
      rw [find?, find?, if_neg hne, if_neg hne]
    · rw [find?, find?, ih]

/-- A map built from keys and a function has the function's values. -/
theorem find?_ofEntries_map (g : String → α) {keys : List String} (h : key ∈ keys) :
    find? (ofEntries (keys.map fun k => (k, g k))) key = some (g key) := by
  have hfold : ∀ (keys : List String) (m : OrderedMap α),
      key ∈ keys ∨ find? m key = some (g key) →
      find? ((keys.map fun k => (k, g k)).foldl (fun m entry => put m entry.1 entry.2) m) key =
        some (g key) := by
    intro keys
    induction keys with
    | nil => simp
    | cons k keys ih =>
      intro m hm
      refine ih (put m k (g k)) ?_
      by_cases hk : key = k
      · subst hk
        exact Or.inr (find?_put_self m key (g key))
      · rw [List.mem_cons] at hm
        rcases hm with (hkey | hmem) | hm
        · exact absurd hkey hk
        · exact Or.inl hmem
        · exact Or.inr (by rw [find?_put_ne hk, hm])
  exact hfold keys [] (Or.inl h)

/-! ## Entries -/

theorem mem_of_find? (h : find? m key = some a) : (key, a) ∈ m := by
  induction m with
  | nil => cases h
  | cons entry m ih =>
    obtain ⟨k, b⟩ := entry
    rw [find?] at h
    split at h
    · rename_i hk
      cases h
      rw [hk]
      exact List.mem_cons_self
    · exact List.mem_cons_of_mem _ (ih h)

/-- If the keys are distinct, the value of a key is what its entry holds. -/
theorem find?_eq_some_iff (h : (keys m).Nodup) : find? m key = some a ↔ (key, a) ∈ m := by
  constructor
  · exact mem_of_find?
  · intro hmem
    induction m with
    | nil => cases hmem
    | cons entry m ih =>
      obtain ⟨k, b⟩ := entry
      rw [keys_cons, List.nodup_cons] at h
      rw [find?]
      rcases List.mem_cons.1 hmem with heq | hrest
      · cases heq
        rw [if_pos rfl]
      · have hkey : key ∈ keys m := List.mem_map.2 ⟨_, hrest, rfl⟩
        have hne : k ≠ key := by
          rintro rfl
          exact h.1 hkey
        rw [if_neg hne]
        exact ih h.2 hrest

theorem nodup_keys_perm {m' : OrderedMap α} (hperm : m.Perm m') (h : (keys m).Nodup) :
    (keys m').Nodup :=
  (hperm.map Prod.fst).nodup_iff.1 h

/-- The value of a key does not depend on the order of the entries. -/
theorem find?_perm {m' : OrderedMap α} (hperm : m.Perm m') (h : (keys m).Nodup) (key : String) :
    find? m key = find? m' key := by
  have h' := nodup_keys_perm hperm h
  ext a
  rw [find?_eq_some_iff h, find?_eq_some_iff h', hperm.mem_iff]

end OrderedMap

end ReactiveScript
