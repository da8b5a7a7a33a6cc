import ReactiveScript.Eval.Fuel
import ReactiveScript.Proofs.Copies
import ReactiveScript.Proofs.Json.Tree
import ReactiveScript.Proofs.StandardHost

/-!
# Values through JSON

A value that is written as JSON and read again comes back as a copy of it in new lists and records.
What JSON cannot express has become `null`.
-/

namespace ReactiveScript

namespace Value

/-- Numbers that are integers of a magnitude below `2 ^ 53` or not finite, and records whose keys
are distinct, as those of every map made by insertions are. -/
def Portable (st : Store) : Value → Prop
  | .number n => n.isFinite = false ∨ ∃ i, n.toInt? = some i ∧ i.natAbs < 2 ^ 53
  | .record ref => (OrderedMap.keys (st.record ref)).Nodup
  | _ => True

end Value

namespace Json

variable {st : Store} {levels depth : Nat} {v : Value} {j : Json}

/-! ## Writing -/

/-- No reference is followed from a value that is no container. -/
theorem ofValueWithin_leaf (hlist : ∀ ref, v ≠ .list ref) (hrecord : ∀ ref, v ≠ .record ref)
    (depth : Nat) : ofValueWithin st depth v = ofValueWithin st 0 v := by
  cases depth with
  | zero => rfl
  | succ depth =>
    cases v with
    | list ref => exact absurd rfl (hlist ref)
    | record ref => exact absurd rfl (hrecord ref)
    | _ => rfl

/-- The tree of a portable value is plain, however many references are followed. -/
theorem plain_ofValueWithin (h : v.Nested st (Value.Portable st) levels) (depth : Nat) :
    Plain levels (ofValueWithin st depth v) := by
  induction h generalizing depth with
  | @leaf levels v hlist hrecord hv =>
    rw [ofValueWithin_leaf hlist hrecord]
    cases v with
    | null => exact .null
    | bool b => exact .bool b
    | number n =>
      rcases hv with hinfinite | ⟨i, hn, hi⟩
      · rw [ofValueWithin, hinfinite, if_neg Bool.false_ne_true]
        exact .null
      · rw [ofValueWithin]
        split
        · exact .number hn hi
        · exact .null
    | string s => exact .string s
    | list ref => exact absurd rfl (hlist ref)
    | record ref => exact absurd rfl (hrecord ref)
    | function | builtin | method | host => exact .null
  | list hv _ ih =>
    cases depth with
    | zero => exact .null
    | succ depth =>
      refine .array fun j hj => ?_
      obtain ⟨item, hitem, rfl⟩ := List.mem_map.1 hj
      exact ih item hitem depth
  | record hv _ ih =>
    cases depth with
    | zero => exact .null
    | succ depth =>
      refine .object ?_ fun entry' hentry' => ?_
      · rw [OrderedMap.keys_map]
        exact hv
      · obtain ⟨entry, hentry, rfl⟩ := List.mem_map.1 hentry'
        exact ih entry hentry depth

/-! ## Reading -/

/-- The value made for a tree is a copy of `v`, in the store it is made in and in all that this
becomes while more is made. -/
def Rebuilds (st : Store) (v : Value) (j : Json) : Prop :=
  ∀ st₀ : Store, st₀.Extends (j.toValue st₀).2 ∧
    ∀ st' : Store, (j.toValue st₀).2.Extends st' → Value.Copied st st' v (j.toValue st₀).1

theorem rebuilds_of_eq {w : Value} (hmade : ∀ st₀, j.toValue st₀ = (w, st₀))
    (hcopied : ∀ st', Value.Copied st st' v w) : Rebuilds st v j := by
  intro st₀
  rw [hmade]
  exact ⟨.refl st₀, fun st' _ => hcopied st'⟩

theorem toValues_copied {vs : List Value} {js : List Json}
    (h : List.Forall₂ (Rebuilds st) vs js) (made : Array Value) (st₀ : Store) :
    st₀.Extends (toValues js made st₀).2 ∧ ∃ ws : List Value,
      (toValues js made st₀).1.toList = made.toList ++ ws ∧
      ∀ st' : Store, (toValues js made st₀).2.Extends st' →
        List.Forall₂ (Value.Copied st st') vs ws := by
  induction h generalizing made st₀ with
  | nil => exact ⟨.refl st₀, [], (List.append_nil _).symm, fun _ _ => .nil⟩
  | @cons v j vs js hv _ ih =>
    obtain ⟨hfirst, hcopied⟩ := hv st₀
    obtain ⟨hothers, ws, hmade, hcopies⟩ := ih (made.push (j.toValue st₀).1) (j.toValue st₀).2
    rw [toValues]
    refine ⟨hfirst.trans hothers, (j.toValue st₀).1 :: ws, ?_, fun st' hst' => ?_⟩
    · rw [hmade, Array.toList_push, List.append_assoc, List.singleton_append]
    · exact .cons (hcopied st' (hothers.trans hst')) (hcopies st' hst')

/-- No key is repeated, so that each entry is added behind those already made. -/
theorem toEntries_copied {vs : List Value} {entries : OrderedMap Json}
    (h : List.Forall₂ (Rebuilds st) vs (entries.map Prod.snd)) (made : OrderedMap Value)
    (hkeys : (OrderedMap.keys made ++ OrderedMap.keys entries).Nodup) (st₀ : Store) :
    st₀.Extends (toEntries entries made st₀).2 ∧ ∃ ws : OrderedMap Value,
      (toEntries entries made st₀).1 = made ++ ws ∧
      OrderedMap.keys ws = OrderedMap.keys entries ∧
      ∀ st' : Store, (toEntries entries made st₀).2.Extends st' →
        List.Forall₂ (Value.Copied st st') vs (ws.map Prod.snd) := by
  induction entries generalizing vs made st₀ with
  | nil =>
    cases h
    exact ⟨.refl st₀, [], (List.append_nil _).symm, rfl, fun _ _ => .nil⟩
  | cons entry entries ih =>
    obtain ⟨key, j⟩ := entry
    obtain ⟨v, vs, hv, hvs, rfl⟩ := List.forall₂_cons_right_iff.1 h
    obtain ⟨hfirst, hcopied⟩ := hv st₀
    have hnew : OrderedMap.has made key = false := by
      rw [← Bool.not_eq_true, OrderedMap.has_iff_mem_keys]
      exact fun hmem => (List.nodup_append.1 hkeys).2.2 key hmem key List.mem_cons_self rfl
    have hkeys' : (OrderedMap.keys (made ++ [(key, (j.toValue st₀).1)]) ++
        OrderedMap.keys entries).Nodup := by
      rw [OrderedMap.keys_append, List.append_assoc]
      exact hkeys
    obtain ⟨hothers, ws, hmade, hsameKeys, hcopies⟩ := ih hvs _ hkeys' (j.toValue st₀).2
    rw [toEntries]
    dsimp only
    rw [OrderedMap.put_eq_concat hnew]
    refine ⟨hfirst.trans hothers, (key, (j.toValue st₀).1) :: ws, ?_,
      congrArg (key :: ·) hsameKeys, fun st' hst' => ?_⟩
    · rw [hmade, List.append_assoc, List.singleton_append]
    · exact .cons (hcopied st' (hothers.trans hst')) (hcopies st' hst')

theorem rebuilds_list {ref : Ref} {items : List Json}
    (h : List.Forall₂ (Rebuilds st) (st.list ref).toList items) :
    Rebuilds st (.list ref) (.array items) := by
  intro st₀
  obtain ⟨hextends, ws, hmade, hcopies⟩ := toValues_copied h #[] st₀
  rw [List.nil_append] at hmade
  rw [toValue]
  refine ⟨hextends.trans (.newList _ _), fun st' hst' => ?_⟩
  have hcopy : st'.lists[(toValues items #[] st₀).2.lists.size]? =
      some (toValues items #[] st₀).1 := hst'.lists Array.getElem?_push_size
  refine .list hcopy ?_
  rw [hmade]
  exact hcopies st' ((Store.Extends.newList _ _).trans hst')

theorem rebuilds_record {ref : Ref} {entries : OrderedMap Json}
    (hdistinct : (OrderedMap.keys (st.record ref)).Nodup)
    (hkeys : OrderedMap.keys (st.record ref) = OrderedMap.keys entries)
    (h : List.Forall₂ (Rebuilds st) ((st.record ref).map Prod.snd) (entries.map Prod.snd)) :
    Rebuilds st (.record ref) (.object entries) := by
  intro st₀
  obtain ⟨hextends, ws, hmade, hsameKeys, hcopies⟩ := toEntries_copied h []
    (by rw [OrderedMap.keys_nil, List.nil_append, ← hkeys]; exact hdistinct) st₀
  rw [List.nil_append] at hmade
  rw [toValue]
  refine ⟨hextends.trans (.newRecord _ _), fun st' hst' => ?_⟩
  have hcopy : st'.records[(toEntries entries [] st₀).2.records.size]? =
      some (toEntries entries [] st₀).1 := hst'.records Array.getElem?_push_size
  rw [hmade] at hcopy
  exact .record hcopy (hkeys.trans hsameKeys.symm)
    (hcopies st' ((Store.Extends.newRecord _ _).trans hst'))

/-- A tree that differs from that of a value in the signs of zeros at most makes a copy of it, if
enough references were followed. -/
theorem rebuilds_of_same (h : v.Nested st (Value.Portable st) levels) (hdepth : levels ≤ depth)
    (hj : Same (ofValueWithin st depth v) j) : Rebuilds st v j := by
  induction h generalizing depth j with
  | @leaf levels v hlist hrecord hv =>
    rw [ofValueWithin_leaf hlist hrecord] at hj
    cases v with
    | null =>
      obtain ⟨⟩ := hj
      exact rebuilds_of_eq (fun _ => rfl) fun _ => .null
    | bool b =>
      obtain ⟨⟩ := hj
      exact rebuilds_of_eq (fun _ => rfl) fun _ => .bool b
    | number n =>
      rw [ofValueWithin] at hj
      split at hj
      · rename_i hfinite
        cases hj with
        | number hequals =>
          exact rebuilds_of_eq (fun _ => rfl) fun _ => .number hfinite hequals
      · rename_i hinfinite
        obtain ⟨⟩ := hj
        exact rebuilds_of_eq (fun _ => rfl) fun _ => .notFinite (Bool.not_eq_true _ ▸ hinfinite)
    | string s =>
      obtain ⟨⟩ := hj
      exact rebuilds_of_eq (fun _ => rfl) fun _ => .string s
    | list ref => exact absurd rfl (hlist ref)
    | record ref => exact absurd rfl (hrecord ref)
    | function ref =>
      obtain ⟨⟩ := hj
      exact rebuilds_of_eq (fun _ => rfl) fun _ => .function ref
    | builtin ref =>
      obtain ⟨⟩ := hj
      exact rebuilds_of_eq (fun _ => rfl) fun _ => .builtin ref
    | method receiver name =>
      obtain ⟨⟩ := hj
      exact rebuilds_of_eq (fun _ => rfl) fun _ => .method receiver name
    | host ref =>
      obtain ⟨⟩ := hj
      exact rebuilds_of_eq (fun _ => rfl) fun _ => .host ref
  | @list levels ref hv _ ih =>
    obtain ⟨depth, rfl⟩ := Nat.exists_eq_add_of_lt hdepth
    cases hj with
    | array hitems =>
      have hsame := List.forall₂_map_left_iff.1 hitems
      refine rebuilds_list (List.Forall₂.imp ?_ ((List.forall₂_and_left _ _).2 ⟨ih, hsame⟩))
      exact fun item j ⟨hrebuilds, hj⟩ => hrebuilds (by omega) hj
  | @record levels ref hv _ ih =>
    obtain ⟨depth, rfl⟩ := Nat.exists_eq_add_of_lt hdepth
    cases hj with
    | object hkeys hvalues =>
      rw [OrderedMap.keys_map] at hkeys
      rw [List.map_map] at hvalues
      have hsame := List.forall₂_map_left_iff.1 hvalues
      refine rebuilds_record hv hkeys (List.forall₂_map_left_iff.2
        (List.Forall₂.imp ?_ ((List.forall₂_and_left _ _).2 ⟨ih, hsame⟩)))
      exact fun entry j ⟨hrebuilds, hj⟩ => hrebuilds (by omega) hj

end Json

/-! ## The round trip -/

theorem HostClass.parseJson_stringify {st : Store} {v : Value} (further : List Value)
    (hv : v.Nested st (Value.Portable st) 127) :
    ∃ text, stringify (v :: further) st = .ok (.string text) ∧ ∃ w st',
      parseJson [.string text] st = { result := .ok w, store := st' } ∧ st.Extends st' ∧
      Value.Copied st st' v w := by
  have hblank : ∀ pretty : Bool,
      (if pretty then Json.Spacing.indented else Json.Spacing.compact).Blank := by
    intro pretty
    cases pretty with
    | false => exact Json.Spacing.blank_compact
    | true => exact Json.Spacing.blank_indented
  obtain ⟨j, hread, hsame⟩ := Json.read_write
    (hblank ((further.drop 1).head?.any Value.isTruthy))
    (Json.plain_ofValueWithin hv st.depthBound) (by decide)
  obtain ⟨hextends, hcopied⟩ :=
    Json.rebuilds_of_same hv.within_depthBound (Nat.le_refl st.depthBound) hsame st
  refine ⟨_, rfl, (j.toValue st).1, (j.toValue st).2, ?_, hextends, hcopied _ (.refl _)⟩
  have hdisplay : ∀ text, (Value.string text).display st = text := fun _ => rfl
  unfold parseJson
  dsimp only
  rw [hdisplay]
  unfold Json.ofValue
  rw [hread]

/-- A call of a method that answers with a value has it and changes nothing but the store. -/
theorem Rule.call_method_ok {ctx : Context} (ev : Evaluator) {s : State} {ref : Ref}
    {name : String} {args : List Value} {v : Value} {st : Store} (receiver : Option Value)
    (h : ctx.library.invoke s.store ref name args = { result := .ok v, store := st }) :
    Rule.call ctx ev (.method ref name) args receiver s = .ok v { s with store := st } := by
  unfold Rule.call Rule.callMethod Eval.hostCall
  dsimp only
  rw [h, Bool.or_false]

/-- A value of at most 127 nested lists and records whose numbers are integers of a magnitude below
`2 ^ 53` or not finite goes through `JSON.stringify` and back through `JSON.parse`, whatever further
arguments choose the layout. Nothing is changed on the way, and what comes back is a copy, in which
`null` stands for functions, host objects and numbers that are not finite. If the value holds none
of these, the copy is structurally equal to it. -/
theorem json_gives_back_a_copy (ctx : Context) (ev : Evaluator) (s : State) (json : Ref)
    (v : Value) (further : List Value) (receiver : Option Value)
    (hjson : ctx.library.classAt s.store json = .json)
    (hv : v.Nested s.store (Value.Portable s.store) 127) :
    ∃ text w st',
      Rule.call ctx ev (.method json "stringify") (v :: further) receiver s =
        .ok (.string text) s ∧
      Rule.call ctx ev (.method json "parse") [.string text] receiver s =
        .ok w { s with store := st' } ∧
      s.store.Extends st' ∧ Value.Copied s.store st' v w ∧
      (v.Nested s.store (Value.Expressible s.store) 127 → v.structuralEquals st' w = true) := by
  obtain ⟨text, hstringify, w, st', hparse, hextends, hcopied⟩ :=
    HostClass.parseJson_stringify further hv
  refine ⟨text, w, st', Rule.call_method_ok ev receiver ?_, Rule.call_method_ok ev receiver ?_,
    hextends, hcopied, fun hlossless =>
      Value.structuralEquals_of_copied hextends hlossless hcopied⟩
  · rw [HostLibrary.invoke, hjson]
    show ({ result := HostClass.stringify (v :: further) s.store, store := s.store } : Reply) = _
    rw [hstringify]
  · rw [HostLibrary.invoke, hjson]
    exact hparse

/-- A record with a list, which holds an empty record, a negative number and some values that JSON
cannot express. Keys and strings need every kind of escape. -/
def nestedRecord : State where
  store :=
    { (Host.standardGlobals {}).2 with
      lists := #[#[.record 1, .number (Number.ofInt (-3)), .number Number.nan, .host 0,
        .string "\"\\\n\x01é"]]
      records := #[[("b\t", .list 0), ("a", .null), ("", .bool true)], []] }

theorem nested_nestedRecord :
    (Value.record 0).Nested nestedRecord.store (Value.Portable nestedRecord.store) 3 := by
  have hleaf : ∀ {v : Value} {levels : Nat}, (∀ ref, v ≠ .list ref) → (∀ ref, v ≠ .record ref) →
      Value.Portable nestedRecord.store v →
      v.Nested nestedRecord.store (Value.Portable nestedRecord.store) levels := .leaf
  refine .record (by unfold Value.Portable; decide) ?_
  show ∀ entry ∈ ([("b\t", .list 0), ("a", .null), ("", .bool true)] : OrderedMap Value), _
  simp only [List.forall_mem_cons]
  refine ⟨.list trivial ?_, hleaf (by simp) (by simp) trivial, hleaf (by simp) (by simp) trivial,
    List.forall_mem_nil _⟩
  show ∀ item ∈ [Value.record 1, .number (Number.ofInt (-3)), .number Number.nan, .host 0,
    .string "\"\\\n\x01é"], _
  simp only [List.forall_mem_cons]
  refine ⟨.record (by unfold Value.Portable; decide) (List.forall_mem_nil _),
    hleaf (by simp) (by simp) (Or.inr ⟨-3, by decide, by decide⟩),
    hleaf (by simp) (by simp) (Or.inl (by decide)), hleaf (by simp) (by simp) trivial,
    hleaf (by simp) (by simp) trivial, List.forall_mem_nil _⟩

/-- The record comes back from both layouts. -/
theorem json_gives_back_a_copy_nestedRecord :
    Host.standardContext.library.classAt nestedRecord.store 1 = .json ∧
    (Value.record 0).Nested nestedRecord.store (Value.Portable nestedRecord.store) 127 ∧
    ∀ further ∈ [[], [.null, Value.ofNat 2]], ∃ text w st',
      Rule.call Host.standardContext Evaluator.empty (.method 1 "stringify")
        (.record 0 :: further) none nestedRecord = .ok (.string text) nestedRecord ∧
      Rule.call Host.standardContext Evaluator.empty (.method 1 "parse") [.string text] none
        nestedRecord = .ok w { nestedRecord with store := st' } ∧
      nestedRecord.store.Extends st' ∧ Value.Copied nestedRecord.store st' (.record 0) w ∧
      ((Value.record 0).Nested nestedRecord.store (Value.Expressible nestedRecord.store) 127 →
        (Value.record 0).structuralEquals st' w = true) := by
  have hnested := nested_nestedRecord.mono (by decide : 3 ≤ 127)
  exact ⟨rfl, hnested, fun further _ => json_gives_back_a_copy Host.standardContext Evaluator.empty
    nestedRecord 1 (.record 0) further none rfl hnested⟩

/-- The compact text of the record. -/
example : HostClass.stringify [.record 0] nestedRecord.store =
    .ok (.string ("\x7b\"b\\t\":[\x7b\x7d,-3,null,null,\"\\\"\\\\\\n\\u0001é\"]," ++
      "\"a\":null,\"\":true\x7d")) := by
  rfl

end ReactiveScript
