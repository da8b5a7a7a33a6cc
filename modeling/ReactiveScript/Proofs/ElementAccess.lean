import ReactiveScript.Eval.Variable
import ReactiveScript.Proofs.IndexWords
import ReactiveScript.Proofs.MapKeys
import ReactiveScript.Proofs.ScopeDiscipline

/-!
# Reading and writing elements

What is read by a key after a write, for lists and for records. A key of a list denotes a position
or none; a record is read and written by the string form of a key. A write changes the list or the
record that it goes to, and so is seen through every reference to it, and it changes nothing else.
-/

namespace ReactiveScript

namespace Value

variable {lib : HostLibrary} {st st' : Store} {key v : Value} {ref other : Ref} {i j : Nat}

/-! ## Keys -/

/-- The position that a key denotes, if it is primitive: a number by itself, and any other key by
its string form. -/
def position? (st : Store) : Value → Option Nat
  | .number n => numberIndex? n
  | key => arrayIndex? (key.display st)

/-- The position that a key denotes, as a word. -/
def positionWord? (st : Store) : Value → Option Word
  | .number n => (numberIndex? n).bind Word.ofNat?
  | key => Word.ofProperty? (key.display st)

/-- The string form of a primitive value does not depend on the store. -/
theorem display_of_isPrimitive (hkey : key.isPrimitive = true) : key.display st = key.display st' := by
  unfold display
  cases key with
  | null | bool | number | string => rw [displayWithin, displayWithin]
  | _ => cases hkey

theorem position?_of_isPrimitive (hkey : key.isPrimitive = true) :
    key.position? st = key.position? st' := by
  cases key with
  | number n => rfl
  | null | bool | string => exact congrArg arrayIndex? (display_of_isPrimitive hkey)
  | _ => cases hkey

theorem numberIndex?_lt {n : Number} (h : numberIndex? n = some i) : i < 2 ^ 64 := by
  unfold numberIndex? at h
  split at h
  · split at h
    · rename_i hbound
      cases h
      omega
    · cases h
  · cases h

/-- Positions are computed in words without loss. -/
theorem map_toNat_positionWord? (st : Store) (key : Value) :
    (key.positionWord? st).map BitVec.toNat = key.position? st := by
  have hproperty := Word.map_toNat_ofProperty? (key.display st)
  cases key with
  | number n =>
    show ((numberIndex? n).bind Word.ofNat?).map BitVec.toNat = numberIndex? n
    cases hi : numberIndex? n with
    | none => rfl
    | some i =>
      show (Word.ofNat? i).map BitVec.toNat = some i
      rw [Word.map_toNat_ofNat?, if_pos (numberIndex?_lt hi)]
  | _ => exact hproperty

/-- The length of a list or a string is not one of its elements. -/
theorem ne_length_of_arrayIndex? {property : String} (h : arrayIndex? property = some i) :
    property ≠ "length" := by
  rintro rfl
  have hnone : arrayIndex? "length" = none := by decide
  rw [hnone] at h
  cases h

/-! ## Elements of lists -/

/-- A key that denotes a position reads the element there, or `null` beyond the end. -/
theorem getIndex_list (lib : HostLibrary) (ref : Ref) (hkey : key.isPrimitive = true)
    (hj : key.position? st = some j) :
    getIndex lib st (.list ref) key = .ok ((st.list ref)[j]?.getD .null) := by
  have hmember : ∀ property, arrayIndex? property = some j →
      getMember lib st (.list ref) property = .ok ((st.list ref)[j]?.getD .null) := by
    intro property hproperty
    rw [getMember, if_neg (ne_length_of_arrayIndex? hproperty), hproperty, Option.bind_some]
  cases key with
  | number n =>
    have hn : numberIndex? n = some j := hj
    rw [getIndex, hn, Option.bind_some]
  | null | bool | string => exact hmember _ hj
  | _ => cases hkey

/-- A key that denotes a position plans to write the element there. -/
theorem setIndex_list (lib : HostLibrary) (ref : Ref) (v : Value) (hkey : key.isPrimitive = true)
    (hi : key.position? st = some i) :
    setIndex lib st (.list ref) key v = setElement st ref i v := by
  have hmember : ∀ property, arrayIndex? property = some i →
      setMember lib st (.list ref) property v = setElement st ref i v := by
    intro property hproperty
    rw [setMember, hproperty]
  cases key with
  | number n =>
    have hn : numberIndex? n = some i := hi
    rw [setIndex, hn]
  | null | bool | string => exact hmember _ hi
  | _ => cases hkey

/-- A key that denotes no position plans nothing. -/
theorem setIndex_list_none (lib : HostLibrary) (ref : Ref) (v : Value)
    (hkey : key.isPrimitive = true) (hnone : key.position? st = none) :
    ∃ text, setIndex lib st (.list ref) key v = .error (.typeMismatch text) := by
  have hmember : ∀ property, arrayIndex? property = none →
      ∃ text, setMember lib st (.list ref) property v = .error (.typeMismatch text) := by
    intro property hproperty
    rw [setMember, hproperty]
    exact ⟨_, rfl⟩
  cases key with
  | number n =>
    have hn : numberIndex? n = none := hnone
    rw [setIndex, hn]
    exact ⟨_, rfl⟩
  | null | bool | string => exact hmember _ hnone
  | _ => cases hkey

/-! ## Entries of records -/

theorem getIndex_record (key : Value) : getIndex lib st (.record ref) key =
    .ok ((OrderedMap.find? (st.record ref) (key.display st)).getD .null) := by
  rw [getIndex, getMember]
  all_goals simp

theorem setIndex_record (key v : Value) :
    setIndex lib st (.record ref) key v = .ok (.entry ref (key.display st) v) := by
  rw [setIndex, setMember]
  all_goals simp

end Value

/-! ## Writes to the store -/

namespace Store

variable {st : Store} {items : Array Value} {ref other : Ref} {i j : Nat} {key : String} {v : Value}

theorem size_writeElement : (writeElement items i v).size = max items.size (i + 1) := by
  unfold writeElement
  by_cases hi : i < items.size
  · rw [if_pos hi, Array.size_setIfInBounds]
    omega
  · rw [if_neg hi, Array.size_push, Array.size_append, Array.size_replicate]
    omega

/-- The element that was written is there, and all others are as before; what pads a list reads as
what was missing. -/
theorem getD_writeElement : (writeElement items i v)[j]?.getD .null =
    if j = i then v else items[j]?.getD .null := by
  unfold writeElement
  by_cases hi : i < items.size
  · rw [if_pos hi, Array.getElem?_setIfInBounds]
    by_cases hj : j = i
    · rw [if_pos hj, if_pos hj.symm, if_pos hi, Option.getD_some]
    · rw [if_neg hj, if_neg (Ne.symm hj)]
  · have hsize : (items ++ Array.replicate (i - items.size) Value.null).size = i := by
      rw [Array.size_append, Array.size_replicate]
      omega
    rw [if_neg hi, Array.getElem?_push, hsize]
    by_cases hj : j = i
    · rw [if_pos hj, if_pos hj, Option.getD_some]
    · rw [if_neg hj, if_neg hj, Array.getElem?_append]
      by_cases hin : j < items.size
      · rw [if_pos hin]
      · have hmissing : items[j]? = none := Array.getElem?_eq_none (Nat.le_of_not_lt hin)
        rw [if_neg hin, Array.getElem?_replicate, hmissing]
        split <;> rfl

theorem list_write_element (href : ref < st.lists.size) :
    (st.write (.element ref i v)).list ref = writeElement (st.list ref) i v := by
  show (st.lists.modify ref _).getD ref #[] = writeElement (st.lists.getD ref #[]) i v
  rw [Array.getD_eq_getD_getElem?, Array.getD_eq_getD_getElem?, Array.getElem?_modify, if_pos rfl,
    Array.getElem?_eq_getElem href]
  rfl

theorem list_write_element_ne (hne : other ≠ ref) :
    (st.write (.element ref i v)).list other = st.list other := by
  show (st.lists.modify ref _).getD other #[] = st.lists.getD other #[]
  rw [Array.getD_eq_getD_getElem?, Array.getD_eq_getD_getElem?, Array.getElem?_modify,
    if_neg (Ne.symm hne)]

theorem record_write_entry (href : ref < st.records.size) :
    (st.write (.entry ref key v)).record ref = OrderedMap.put (st.record ref) key v := by
  show (st.records.modify ref _).getD ref [] = OrderedMap.put (st.records.getD ref []) key v
  rw [Array.getD_eq_getD_getElem?, Array.getD_eq_getD_getElem?, Array.getElem?_modify, if_pos rfl,
    Array.getElem?_eq_getElem href]
  rfl

theorem record_write_entry_ne (hne : other ≠ ref) :
    (st.write (.entry ref key v)).record other = st.record other := by
  show (st.records.modify ref _).getD other [] = st.records.getD other []
  rw [Array.getD_eq_getD_getElem?, Array.getD_eq_getD_getElem?, Array.getElem?_modify,
    if_neg (Ne.symm hne)]

end Store

/-! ## Reading over writing -/

/-- Writes the property that a key denotes, as an assignment does. -/
def Rule.writeIndex (ctx : Context) (object key v : Value) : Eval Unit :=
  Eval.tryWrite fun st => Value.setIndex ctx.library st object key v

/-- A state in which an element of a list was written. -/
structure State.ElementWritten (s s' : State) (ref : Ref) (i : Nat) (v : Value) : Prop where
  /-- Nothing but the lists of the store is different, -/
  frame : s' = { s with store := { s.store with lists := s'.store.lists } }
  /-- there are as many of them, -/
  count : s'.store.lists.size = s.store.lists.size
  /-- and all others are the same. -/
  others (other : Ref) : other ≠ ref → s'.store.list other = s.store.list other
  /-- The list reaches up to the position at least. -/
  size : (s'.store.list ref).size = max (s.store.list ref).size (i + 1)
  /-- Of its elements, only the one at the position is different. -/
  element (j : Nat) : (s'.store.list ref)[j]?.getD .null =
    if j = i then v else (s.store.list ref)[j]?.getD .null

/-- A state in which an entry of a record was written. -/
structure State.EntryWritten (s s' : State) (ref : Ref) (name : String) (v : Value) : Prop where
  /-- Nothing but the records of the store is different, -/
  frame : s' = { s with store := { s.store with records := s'.store.records } }
  /-- there are as many of them, -/
  count : s'.store.records.size = s.store.records.size
  /-- and all others are the same. -/
  others (other : Ref) : other ≠ ref → s'.store.record other = s.store.record other
  /-- A key keeps its position, and a new one comes last. -/
  keys : OrderedMap.keys (s'.store.record ref) =
    if name ∈ OrderedMap.keys (s.store.record ref) then OrderedMap.keys (s.store.record ref)
    else OrderedMap.keys (s.store.record ref) ++ [name]
  /-- Of its entries, only the one of the key is different. -/
  entry (key : String) : (OrderedMap.find? (s'.store.record ref) key).getD .null =
    if key = name then v else (OrderedMap.find? (s.store.record ref) key).getD .null

namespace Rule

variable {ctx : Context} {s s' : State} {other key v : Value} {ref : Ref} {i j : Nat}

theorem writeIndex_ok {w : Store.Write}
    (h : Value.setIndex ctx.library s.store other key v = .ok w) :
    writeIndex ctx other key v s = .ok () { s with store := s.store.write w } := by
  rw [writeIndex, Eval.tryWrite, h]

theorem writeIndex_error {cause : Cause}
    (h : Value.setIndex ctx.library s.store other key v = .error cause) :
    writeIndex ctx other key v s = .error (.of cause) s := by
  rw [writeIndex, Eval.tryWrite, h]

theorem readIndex_ok (h : Value.getIndex ctx.library s.store other key = .ok v) :
    readIndex ctx other key s = .ok v s := by
  rw [readIndex, h]
  rfl

theorem elementWritten_write (i : Nat) (v : Value) (href : ref < s.store.lists.size) :
    s.ElementWritten { s with store := s.store.write (.element ref i v) } ref i v where
  frame := rfl
  count := Array.size_modify
  others _ hne := Store.list_write_element_ne hne
  size := by rw [Store.list_write_element href, Store.size_writeElement]
  element j := by rw [Store.list_write_element href, Store.getD_writeElement]

theorem entryWritten_write (name : String) (v : Value) (href : ref < s.store.records.size) :
    s.EntryWritten { s with store := s.store.write (.entry ref name v) } ref name v where
  frame := rfl
  count := Array.size_modify
  others _ hne := Store.record_write_entry_ne hne
  keys := by rw [Store.record_write_entry href, OrderedMap.keys_put]
  entry key := by
    rw [Store.record_write_entry href]
    by_cases hkey : key = name
    · rw [if_pos hkey, hkey, OrderedMap.find?_put_self, Option.getD_some]
    · rw [if_neg hkey, OrderedMap.find?_put_ne hkey]

/-- A list is the only value that is strictly equal to it. -/
theorem eq_of_strictEquals_list (h : other.strictEquals (.list ref) = true) : other = .list ref := by
  cases other with
  | list r => rw [beq_iff_eq.1 h]
  | _ => cases h

theorem eq_of_strictEquals_record (h : other.strictEquals (.record ref) = true) :
    other = .record ref := by
  cases other with
  | record r => rw [beq_iff_eq.1 h]
  | _ => cases h

/-- What is read from a list after one of its elements was written. -/
theorem readIndex_of_elementWritten (hwritten : s.ElementWritten s' ref i v)
    (hother : other.strictEquals (.list ref) = true) (hkey : key.isPrimitive = true)
    (hj : key.position? s.store = some j) :
    readIndex ctx other key s' =
      .ok (if j = i then v else (s.store.list ref)[j]?.getD .null) s' := by
  rw [Value.position?_of_isPrimitive hkey] at hj
  have hread := Value.getIndex_list ctx.library ref hkey hj
  rw [eq_of_strictEquals_list hother, readIndex_ok hread, hwritten.element]

/-- What is read from a record after one of its entries was written. -/
theorem readIndex_of_entryWritten {name : String} (hwritten : s.EntryWritten s' ref name v)
    (hother : other.strictEquals (.record ref) = true) (hkey : key.isPrimitive = true) :
    ∃ old, readIndex ctx (.record ref) key s = .ok old s ∧
      readIndex ctx other key s' = .ok (if key.display s.store = name then v else old) s' := by
  have hdisplay : key.display s'.store = key.display s.store := Value.display_of_isPrimitive hkey
  refine ⟨_, readIndex_ok (Value.getIndex_record key), ?_⟩
  rw [eq_of_strictEquals_record hother, readIndex_ok (Value.getIndex_record key), hdisplay,
    hwritten.entry]

end Rule

/-- What is read after a write, for every list, every record and all primitive keys. A list can be
written where a key denotes a position that is below its length or below `2 ^ 24`; it is padded up
to there, and every key that denotes the position then reads the new element, while other positions
read what they did. Any other write to a list is refused and changes nothing. A record can always be
written; then all keys with the same string form read the new entry, and others what they did. Both
are seen by all who refer to the list or the record, and no other list or record changes. All of
this is computed in words of 64 bits without loss. -/
theorem elements_read_over_write (ctx : Context) (s : State) (ref : Ref) (key v : Value)
    (hkey : key.isPrimitive = true) :
    (ref < s.store.lists.size →
      (∀ i, key.position? s.store = some i → i < (s.store.list ref).size ∨ i < 2 ^ 24 →
        ∃ s', Rule.writeIndex ctx (.list ref) key v s = .ok () s' ∧ s.ElementWritten s' ref i v ∧
          ∀ other key' j, other.strictEquals (.list ref) = true → key'.isPrimitive = true →
            key'.position? s.store = some j →
            Rule.readIndex ctx other key' s' =
              .ok (if j = i then v else (s.store.list ref)[j]?.getD .null) s') ∧
      ((∀ i, key.position? s.store = some i → ¬(i < (s.store.list ref).size ∨ i < 2 ^ 24)) →
        ∃ text, Rule.writeIndex ctx (.list ref) key v s = .error (.of (.typeMismatch text)) s)) ∧
    (ref < s.store.records.size →
      ∃ s', Rule.writeIndex ctx (.record ref) key v s = .ok () s' ∧
        s.EntryWritten s' ref (key.display s.store) v ∧
        ∀ other key', other.strictEquals (.record ref) = true → key'.isPrimitive = true →
          ∃ old, Rule.readIndex ctx (.record ref) key' s = .ok old s ∧
            Rule.readIndex ctx other key' s' =
              .ok (if key'.display s.store = key.display s.store then v else old) s') ∧
    (∀ key' : Value, (key'.positionWord? s.store).map BitVec.toNat = key'.position? s.store) ∧
    ∀ length i : Word, (Word.lengthAfter? length i).map BitVec.toNat =
      if i.toNat < length.toNat ∨ i.toNat < 2 ^ 24 then some (max length.toNat (i.toNat + 1))
      else none := by
  refine ⟨fun href => ⟨fun i hi hbound => ?_, fun hrefused => ?_⟩, fun href => ?_,
    Value.map_toNat_positionWord? s.store, Word.map_toNat_lengthAfter?⟩
  · have hgrows : i < (s.store.list ref).size ∨ i < Value.maxListLength := hbound
    have hplan : Value.setIndex ctx.library s.store (.list ref) key v =
        .ok (.element ref i v) := by
      rw [Value.setIndex_list _ _ _ hkey hi, Value.setElement, if_pos hgrows]
    have hwritten := Rule.elementWritten_write i v href
    exact ⟨_, Rule.writeIndex_ok hplan, hwritten, fun other key' j hother hkey' hj =>
      Rule.readIndex_of_elementWritten hwritten hother hkey' hj⟩
  · cases hi : key.position? s.store with
    | none =>
      obtain ⟨text, herror⟩ := Value.setIndex_list_none ctx.library ref v hkey hi
      exact ⟨text, Rule.writeIndex_error herror⟩
    | some i =>
      have hbound : ¬(i < (s.store.list ref).size ∨ i < Value.maxListLength) := hrefused i hi
      have hplan := Value.setIndex_list ctx.library ref v hkey hi
      rw [Value.setElement, if_neg hbound] at hplan
      exact ⟨_, Rule.writeIndex_error hplan⟩
  · have hwritten := Rule.entryWritten_write (key.display s.store) v href
    exact ⟨_, Rule.writeIndex_ok (Value.setIndex_record key v), hwritten,
      fun other key' hother hkey' => Rule.readIndex_of_entryWritten hwritten hother hkey'⟩

/-- A list with one element, and a record with one entry. -/
def oneElement : State where
  store := { lists := #[#[.number 1]], records := #[[("a", .number 1)]] }

/-- A write beyond the end pads the list; `"02"` denotes the position that was written by `"2"`, and
the position before it reads as `null`. -/
theorem elements_read_over_write_oneElement :
    (Value.string "2").isPrimitive = true ∧
      (Value.string "2").position? oneElement.store = some 2 ∧
      (∃ s', Rule.writeIndex plainContext (.list 0) (.string "2") (.bool true) oneElement =
          .ok () s' ∧ (s'.store.list 0).size = 3 ∧
        Rule.readIndex plainContext (.list 0) (.string "02") s' = .ok (.bool true) s' ∧
        Rule.readIndex plainContext (.list 0) (.number 1) s' = .ok .null s') ∧
      ∃ s', Rule.writeIndex plainContext (.record 0) (.string "2") .null oneElement =
          .ok () s' ∧ OrderedMap.keys (s'.store.record 0) = ["a", "2"] := by
  have hkey : (Value.string "2").isPrimitive = true := rfl
  have hposition : (Value.string "2").position? oneElement.store = some 2 := by decide
  obtain ⟨hlist, -⟩ := elements_read_over_write plainContext oneElement 0 (.string "2")
    (.bool true) hkey
  obtain ⟨-, hrecord, -⟩ := elements_read_over_write plainContext oneElement 0 (.string "2")
    .null hkey
  obtain ⟨s₁, hwrite₁, hwritten₁, hread⟩ := (hlist (by decide)).1 2 hposition (.inr (by decide))
  obtain ⟨s₂, hwrite₂, hwritten₂, -⟩ := hrecord (by decide)
  exact ⟨hkey, hposition, ⟨s₁, hwrite₁, hwritten₁.size, hread _ _ 2 rfl rfl (by decide),
    hread _ _ 1 rfl rfl (by decide)⟩, s₂, hwrite₂, hwritten₂.keys⟩

end ReactiveScript
