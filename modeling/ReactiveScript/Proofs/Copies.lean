import ReactiveScript.Proofs.MapKeys
import ReactiveScript.Proofs.Nesting
import ReactiveScript.Value.Equality

/-!
# Copies

A copy of a value has the same contents in lists and records of its own, as far as these contents
can leave a program: functions and host objects stay behind. A copy of a value that holds none of
them is structurally equal to it.
-/

namespace ReactiveScript

/-- A store that has kept everything and may have got new lists and records. -/
structure Store.Extends (st st' : Store) : Prop where
  lists : ∀ {ref : Ref} {items : Array Value}, st.lists[ref]? = some items →
    st'.lists[ref]? = some items
  records : ∀ {ref : Ref} {entries : OrderedMap Value}, st.records[ref]? = some entries →
    st'.records[ref]? = some entries
  functions : st'.functions = st.functions
  builtins : st'.builtins = st.builtins
  hosts : st'.hosts = st.hosts
  console : st'.console = st.console

namespace Store.Extends

variable {st st₁ st₂ : Store}

theorem refl (st : Store) : st.Extends st := ⟨id, id, rfl, rfl, rfl, rfl⟩

theorem trans (h : st.Extends st₁) (h' : st₁.Extends st₂) : st.Extends st₂ where
  lists hitems := h'.lists (h.lists hitems)
  records hentries := h'.records (h.records hentries)
  functions := h'.functions.trans h.functions
  builtins := h'.builtins.trans h.builtins
  hosts := h'.hosts.trans h.hosts
  console := h'.console.trans h.console

theorem newList (st : Store) (items : Array Value) : st.Extends (st.newList items).2 where
  lists := by
    intro ref items' h
    obtain ⟨hlt, hitem⟩ := Array.getElem?_eq_some_iff.1 h
    exact (Array.getElem?_push_lt hlt).trans (congrArg some hitem)
  records := id
  functions := rfl
  builtins := rfl
  hosts := rfl
  console := rfl

theorem newRecord (st : Store) (entries : OrderedMap Value) :
    st.Extends (st.newRecord entries).2 where
  lists := id
  records := by
    intro ref entries' h
    obtain ⟨hlt, hitem⟩ := Array.getElem?_eq_some_iff.1 h
    exact (Array.getElem?_push_lt hlt).trans (congrArg some hitem)
  functions := rfl
  builtins := rfl
  hosts := rfl
  console := rfl

/-! References that a store has mean the same in every extension of it. -/

theorem list_eq (h : st.Extends st₁) {ref : Ref} (href : ref < st.lists.size) :
    st₁.list ref = st.list ref := by
  have hitems := h.lists (Array.getElem?_eq_getElem href)
  rw [Store.list, Store.list, Array.getD_eq_getD_getElem?, Array.getD_eq_getD_getElem?, hitems,
    Array.getElem?_eq_getElem href]

theorem record_eq (h : st.Extends st₁) {ref : Ref} (href : ref < st.records.size) :
    st₁.record ref = st.record ref := by
  have hentries := h.records (Array.getElem?_eq_getElem href)
  rw [Store.record, Store.record, Array.getD_eq_getD_getElem?, Array.getD_eq_getD_getElem?,
    hentries, Array.getElem?_eq_getElem href]

theorem depthBound_le (h : st.Extends st₁) : st.depthBound ≤ st₁.depthBound := by
  have hlists : st.lists.size ≤ st₁.lists.size := by
    refine le_of_forall_lt fun ref href => ?_
    exact (Array.getElem?_eq_some_iff.1 (h.lists (Array.getElem?_eq_getElem href))).1
  have hrecords : st.records.size ≤ st₁.records.size := by
    refine le_of_forall_lt fun ref href => ?_
    exact (Array.getElem?_eq_some_iff.1 (h.records (Array.getElem?_eq_getElem href))).1
  unfold Store.depthBound
  omega

end Store.Extends

/-- The values of two maps with the same distinct keys correspond under each of these keys. -/
theorem OrderedMap.find?_of_forall₂ {α β : Type} {R : α → β → Prop} {m : OrderedMap α}
    {m' : OrderedMap β} (hdistinct : (keys m).Nodup) (hkeys : keys m = keys m')
    (hvalues : List.Forall₂ R (m.map Prod.snd) (m'.map Prod.snd)) :
    ∀ entry ∈ m, ∃ b, find? m' entry.1 = some b ∧ R entry.2 b := by
  induction m generalizing m' with
  | nil => simp
  | cons entry m ih =>
    cases m' with
    | nil => cases hkeys
    | cons entry' m' =>
      obtain ⟨hkey, hkeys⟩ := List.cons.inj hkeys
      obtain ⟨hfirst, hvalues⟩ := List.forall₂_cons.1 hvalues
      obtain ⟨hnew, hdistinct⟩ := List.nodup_cons.1 hdistinct
      rw [List.forall_mem_cons]
      refine ⟨⟨entry'.2, ?_, hfirst⟩, fun other hother => ?_⟩
      · rw [find?, if_pos hkey.symm]
      · obtain ⟨b, hfind, hb⟩ := ih hdistinct hkeys hvalues other hother
        have hne : entry'.1 ≠ other.1 := by
          rw [← hkey]
          intro heq
          exact hnew (List.mem_map.2 ⟨other, hother, heq.symm⟩)
        exact ⟨b, by rw [find?, if_neg hne, hfind], hb⟩

namespace Value

/-- A value of one store and its copy in another: lists have the same elements and records the same
entries in the same order, numbers are equal, and `null` stands for everything that JSON cannot
express. -/
inductive Copied (st st' : Store) : Value → Value → Prop
  | null : Copied st st' .null .null
  | bool (b : Bool) : Copied st st' (.bool b) (.bool b)
  | number {n m : Number} (hfinite : n.isFinite = true) (hequals : n.equals m = true) :
      Copied st st' (.number n) (.number m)
  | notFinite {n : Number} (h : n.isFinite = false) : Copied st st' (.number n) .null
  | string (s : String) : Copied st st' (.string s) (.string s)
  | list {ref ref' : Ref} {items : Array Value} (hcopy : st'.lists[ref']? = some items)
      (hitems : List.Forall₂ (Copied st st') (st.list ref).toList items.toList) :
      Copied st st' (.list ref) (.list ref')
  | record {ref ref' : Ref} {entries : OrderedMap Value} (hcopy : st'.records[ref']? = some entries)
      (hkeys : OrderedMap.keys (st.record ref) = OrderedMap.keys entries)
      (hvalues : List.Forall₂ (Copied st st') ((st.record ref).map Prod.snd)
        (entries.map Prod.snd)) : Copied st st' (.record ref) (.record ref')
  | function (ref : Ref) : Copied st st' (.function ref) .null
  | builtin (ref : Ref) : Copied st st' (.builtin ref) .null
  | method (receiver : Ref) (name : String) : Copied st st' (.method receiver name) .null
  | host (ref : Ref) : Copied st st' (.host ref) .null

/-! ## Structural equality -/

/-- What can be copied without loss, and refers to nothing but what the store has. -/
def Expressible (st : Store) : Value → Prop
  | .null | .bool _ | .string _ => True
  | .number n => n.isFinite = true
  | .list ref => ref < st.lists.size
  | .record ref => ref < st.records.size ∧ (OrderedMap.keys (st.record ref)).Nodup
  | .function _ | .builtin _ | .method .. | .host _ => False

variable {st st' : Store} {v w : Value} {levels depth : Nat}

theorem structuralEqualsWithin_of_copied (hst : st.Extends st')
    (hv : v.Nested st (Expressible st) levels) (hw : Copied st st' v w) (hdepth : levels ≤ depth) :
    structuralEqualsWithin st' depth v w = true := by
  induction hv generalizing w depth with
  | @leaf levels v hlist hrecord hv =>
    have hstrict : strictEquals v w = true := by
      cases hw with
      | null => rfl
      | bool | string => exact beq_self_eq_true _
      | number _ hequals => exact hequals
      | notFinite hinfinite => exact absurd (hv.symm.trans hinfinite) (by decide)
      | list => exact absurd rfl (hlist _)
      | record => exact absurd rfl (hrecord _)
      | function | builtin | method | host => cases hv
    cases hw with
    | list => exact absurd rfl (hlist _)
    | record => exact absurd rfl (hrecord _)
    | _ => cases depth <;> exact hstrict
  | @list levels ref href _ ih =>
    obtain ⟨depth, rfl⟩ := Nat.exists_eq_add_of_lt hdepth
    cases hw with
    | @list _ ref' items hcopy hitems =>
      have hlist' : st'.list ref' = items := by
        rw [Store.list, Array.getD_eq_getD_getElem?, hcopy, Option.getD_some]
      rw [structuralEqualsWithin, hst.list_eq href, hlist', Bool.or_eq_true, Bool.and_eq_true,
        List.all_eq_true]
      refine Or.inr ⟨beq_iff_eq.2 hitems.length_eq, fun pair hpair => ?_⟩
      have hitem := (List.of_mem_zip hpair).1
      exact ih pair.1 hitem (List.forall₂_zip hitems hpair) (by omega)
  | @record levels ref href _ ih =>
    obtain ⟨depth, rfl⟩ := Nat.exists_eq_add_of_lt hdepth
    cases hw with
    | @record _ ref' entries hcopy hkeys hvalues =>
      have hrecord' : st'.record ref' = entries := by
        rw [Store.record, Array.getD_eq_getD_getElem?, hcopy, Option.getD_some]
      have hlength : (st.record ref).length = entries.length := by
        have hkeysLength := congrArg List.length hkeys
        rwa [OrderedMap.keys, OrderedMap.keys, List.length_map, List.length_map] at hkeysLength
      rw [structuralEqualsWithin, hst.record_eq href.1, hrecord', Bool.or_eq_true,
        Bool.and_eq_true, List.all_eq_true]
      refine Or.inr ⟨beq_iff_eq.2 hlength, fun entry hentry => ?_⟩
      obtain ⟨w, hfind, hw⟩ := OrderedMap.find?_of_forall₂ href.2 hkeys hvalues entry hentry
      rw [hfind]
      exact ih entry hentry hw (by omega)

/-- A copy without loss is structurally equal. -/
theorem structuralEquals_of_copied (hst : st.Extends st')
    (hv : v.Nested st (Expressible st) levels) (hw : Copied st st' v w) :
    v.structuralEquals st' w = true :=
  structuralEqualsWithin_of_copied hst hv.within_depthBound hw hst.depthBound_le

end Value

end ReactiveScript
