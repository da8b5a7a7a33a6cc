import Mathlib
import ReactiveScript.Proofs.MapKeys
import ReactiveScript.Proofs.Nesting
import ReactiveScript.Proofs.SameValue

/-!
# How the equalities go together

Strict equality is the comparison by which assignment detects a change, restricted to what is not
NaN. Loose equality extends it by conversions, of which there are two at most, and agrees with it on
operands of one type. Structural equality extends it by looking into lists and records; the order of
a record's keys makes no difference to it.
-/

namespace ReactiveScript

/-! ## The entries of two maps -/

namespace OrderedMap

variable {α : Type} {p : α → α → Bool} {m m' n : OrderedMap α} {key : String} {a : α}

/-- Whether every entry of a map has an entry with the same key and a related value in another. -/
def agrees (p : α → α → Bool) (m m' : OrderedMap α) : Bool :=
  m.all fun entry =>
    match find? m' entry.1 with
    | some other => p entry.2 other
    | none => false

theorem agrees_iff :
    agrees p m m' = true ↔ ∀ entry ∈ m, ∃ b, find? m' entry.1 = some b ∧ p entry.2 b = true := by
  rw [agrees, List.all_eq_true]
  refine forall₂_congr fun entry _ => ?_
  cases find? m' entry.1 with
  | none => simp
  | some b => simp

/-- A map of the same size that has all the keys of another has no others. -/
theorem keys_subset_of_agrees (hlength : m.length = m'.length) (h : (keys m).Nodup)
    (hagrees : agrees p m m' = true) : keys m' ⊆ keys m := by
  have hsubset : keys m ⊆ keys m' := by
    intro key hkey
    obtain ⟨entry, hentry, rfl⟩ := List.mem_map.1 hkey
    obtain ⟨b, hb, -⟩ := agrees_iff.1 hagrees entry hentry
    exact List.mem_map.2 ⟨_, mem_of_find? hb, rfl⟩
  have hle : (keys m').length ≤ (keys m).length := by
    rw [keys, keys, List.length_map, List.length_map, hlength]
  exact ((h.subperm hsubset).perm_of_length_le hle).symm.subset

theorem agrees_symm (hp : ∀ a b, p a b = p b a) (hlength : m.length = m'.length)
    (h : (keys m).Nodup) (h' : (keys m').Nodup) (hagrees : agrees p m m' = true) :
    agrees p m' m = true := by
  have hkeys := keys_subset_of_agrees hlength h hagrees
  rw [agrees_iff] at hagrees ⊢
  intro entry' hentry'
  have hkey : entry'.1 ∈ keys m := hkeys (List.mem_map.2 ⟨_, hentry', rfl⟩)
  obtain ⟨entry, hentry, hsame⟩ := List.mem_map.1 hkey
  obtain ⟨b, hb, hpb⟩ := hagrees entry hentry
  rw [hsame, (find?_eq_some_iff h').2 hentry'] at hb
  cases hb
  refine ⟨entry.2, ?_, by rw [hp, hpb]⟩
  rw [← hsame, find?_eq_some_iff h]
  exact hentry

/-- The order of the entries makes no difference. -/
theorem agrees_perm (hperm : m.Perm m') (h : (keys m).Nodup) :
    agrees p m n = agrees p m' n ∧ agrees p n m = agrees p n m' := by
  constructor
  · exact hperm.all_eq
  · unfold agrees
    simp only [find?_perm hperm h]

end OrderedMap

/-! ## Records up to the order of their keys -/

/-- No record has a key twice. -/
def Store.DistinctKeys (st : Store) : Prop := ∀ ref, (OrderedMap.keys (st.record ref)).Nodup

/-- A store with the same lists, and with the same records up to the order of their keys. -/
structure Store.Reordered (st st' : Store) : Prop where
  lists : st'.lists = st.lists
  size : st'.records.size = st.records.size
  record (ref : Ref) : (st.record ref).Perm (st'.record ref)

namespace Value

variable {st st' : Store} {a b c v w : Value} {depth depth' : Nat}

/-! ## Strict equality and sameness -/

/-- Whether a value is NaN. -/
def isNaN : Value → Bool
  | .number n => n.isNaN
  | _ => false

theorem isNaN_iff : a.isNaN = true ↔ a = .number Float.nan := by
  cases a with
  | number n => simp [isNaN, Float.isNaN_eq_decide_eq_nan]
  | _ => simp [isNaN]

theorem bothZero_comm : a.bothZero b = b.bothZero a := by
  cases a with
  | number m =>
    cases b with
    | number n => exact Bool.and_comm ..
    | _ => rfl
  | _ => cases b <;> rfl

theorem bothZero_trans (hab : a.bothZero b = true) (hbc : b.bothZero c = true) :
    a.bothZero c = true := by
  unfold bothZero at *
  split at hab
  · split at hbc
    · rename_i hb _ _
      cases hb
      simp_all
    · cases hbc
  · cases hab

/-- A zero is not NaN. -/
theorem isNaN_of_bothZero (h : a.bothZero b = true) : a.isNaN = false := by
  rw [← Bool.not_eq_true]
  intro hnan
  rw [isNaN_iff] at hnan
  subst hnan
  cases b with
  | number n => simp [bothZero, Number.isZero_nan] at h
  | _ => cases h

theorem strictEquals_iff :
    a.strictEquals b = true ↔ a.isNaN = false ∧ a.sameValue b = true := by
  cases a with
  | number m =>
    cases b with
    | number n =>
      rw [sameValue_number]
      show m.equals n = true ↔ m.isNaN = false ∧ _
      rw [Number.equals_iff, Float.isNaN_eq_decide_eq_nan, decide_eq_false_iff_not]
    | _ => simp [strictEquals, sameValue]
  | _ => cases b <;> simp [strictEquals, sameValue, isNaN]

theorem sameValue_comm : a.sameValue b = b.sameValue a := by
  rw [Bool.eq_iff_iff, sameValue_iff, sameValue_iff, bothZero_comm, eq_comm]

theorem sameValue_trans (hab : a.sameValue b = true) (hbc : b.sameValue c = true) :
    a.sameValue c = true := by
  rw [sameValue_iff] at *
  rcases hab with rfl | hab
  · exact hbc
  · rcases hbc with rfl | hbc
    · exact .inr hab
    · exact .inr (bothZero_trans hab hbc)

theorem equivalence_sameValue : Equivalence fun a b : Value => a.sameValue b = true where
  refl a := (sameValue_iff a a).2 (.inl rfl)
  symm h := sameValue_comm.trans h
  trans := sameValue_trans

theorem strictEquals_comm : a.strictEquals b = b.strictEquals a := by
  rw [Bool.eq_iff_iff, strictEquals_iff, strictEquals_iff, sameValue_comm]
  refine and_congr_left fun hsame => ?_
  rcases (sameValue_iff b a).1 hsame with rfl | hzero
  · rfl
  · rw [isNaN_of_bothZero hzero, isNaN_of_bothZero (bothZero_comm.trans hzero)]

theorem strictEquals_trans (hab : a.strictEquals b = true) (hbc : b.strictEquals c = true) :
    a.strictEquals c = true := by
  rw [strictEquals_iff] at *
  exact ⟨hab.1, sameValue_trans hab.2 hbc.2⟩

theorem strictEquals_self : a.strictEquals a = !a.isNaN := by
  rw [Bool.eq_iff_iff, strictEquals_iff, Bool.not_eq_true']
  exact and_iff_left (equivalence_sameValue.refl a)

/-- NaN is all that the two tell apart. -/
theorem sameValue_ne_strictEquals_iff :
    a.sameValue b ≠ a.strictEquals b ↔ a.isNaN = true ∧ b.isNaN = true := by
  rw [Ne, Bool.eq_iff_iff, strictEquals_iff]
  constructor
  · intro hdiffer
    have hnan : a.isNaN = true := by
      by_contra h
      exact hdiffer (iff_and_self.2 fun _ => Bool.eq_false_iff.2 h)
    have hsame : a.sameValue b = true := by
      by_contra h
      exact hdiffer ⟨fun h' => absurd h' h, fun h' => absurd h'.2 h⟩
    rcases (sameValue_iff a b).1 hsame with rfl | hzero
    · exact ⟨hnan, hnan⟩
    · rw [isNaN_of_bothZero hzero] at hnan
      cases hnan
  · rintro ⟨ha, hb⟩ hsame
    rw [isNaN_iff] at ha hb
    subst ha hb
    exact Bool.noConfusion (hsame.1 (equivalence_sameValue.refl _)).1

/-! ## Loose equality -/

/-- Operands of one type are not converted. -/
theorem looseEquals_of_ctorIdx (h : a.ctorIdx = b.ctorIdx) :
    a.looseEquals st b = a.strictEquals b := by
  cases a <;> cases b <;> first | rfl | cases h

/-- Strictly equal values are of one type. -/
theorem ctorIdx_of_strictEquals (h : a.strictEquals b = true) : a.ctorIdx = b.ctorIdx := by
  cases a <;> cases b <;> first | rfl | cases h

theorem looseEquals_of_strictEquals (h : a.strictEquals b = true) :
    a.looseEquals st b = true := by
  rw [looseEquals_of_ctorIdx (ctorIdx_of_strictEquals h), h]

/-- The conversions are the same from both sides. Operands of one type are compared strictly. -/
theorem looseEquals_comm : a.looseEquals st b = b.looseEquals st a := by
  by_cases hsame : a.ctorIdx = b.ctorIdx
  · rw [looseEquals_of_ctorIdx hsame, looseEquals_of_ctorIdx hsame.symm, strictEquals_comm]
  · cases a <;> cases b <;> first | rfl | exact absurd rfl hsame

/-- What loose equality does with two operands: it is decided, or it goes on with others. -/
inductive LooseStep where
  | decided (r : Bool)
  | converted (a b : Value)

/-- One step of loose equality. A boolean becomes a number, and a list or a record becomes a string
next to a number or a string. -/
def looseStep (st : Store) : Value → Value → LooseStep
  | .null, .null => .decided true
  | .null, _ => .decided false
  | _, .null => .decided false
  | .number n, .string s => .decided (n.equals (Number.parse s))
  | .string s, .number n => .decided (n.equals (Number.parse s))
  | .bool a, .bool b => .decided (a == b)
  | .bool b, v => .converted (.number (numberOfBool b)) v
  | v, .bool b => .converted (.number (numberOfBool b)) v
  | .list ref, .number n => .converted (.string ((Value.list ref).display st)) (.number n)
  | .list ref, .string s => .converted (.string ((Value.list ref).display st)) (.string s)
  | .record ref, .number n => .converted (.string ((Value.record ref).display st)) (.number n)
  | .record ref, .string s => .converted (.string ((Value.record ref).display st)) (.string s)
  | .number n, .list ref => .converted (.number n) (.string ((Value.list ref).display st))
  | .number n, .record ref => .converted (.number n) (.string ((Value.record ref).display st))
  | .string s, .list ref => .converted (.string s) (.string ((Value.list ref).display st))
  | .string s, .record ref => .converted (.string s) (.string ((Value.record ref).display st))
  | a, b => .decided (a.strictEquals b)

/-- The steps of loose equality, as far as the given number of steps allows. -/
def looseSteps (st : Store) : (steps : Nat) → Value → Value → Option Bool
  | 0, _, _ => none
  | steps + 1, a, b =>
    match looseStep st a b with
    | .decided r => some r
    | .converted a b => looseSteps st steps a b

/-- How often a value can still be converted. -/
def conversions : Value → Nat
  | .bool _ | .list _ | .record _ => 1
  | _ => 0

/-- Each step uses up a conversion. -/
theorem conversions_of_looseStep {a' b' : Value} (h : looseStep st a b = .converted a' b') :
    a'.conversions + b'.conversions < a.conversions + b.conversions := by
  cases a <;> cases b <;> cases h <;> exact Nat.le_refl _

theorem conversions_le (a : Value) : a.conversions ≤ 1 := by
  cases a <;> first | exact Nat.le_refl 1 | exact Nat.zero_le 1

/-- A step leaves it to loose equality of what it converts to. -/
theorem looseEquals_of_looseStep {a' b' : Value} (h : looseStep st a b = .converted a' b') :
    a.looseEquals st b = a'.looseEquals st b' := by
  cases a <;> cases b <;> cases h <;> first
    | rfl
    | (symm; exact Eq.trans looseEquals_comm rfl)

theorem looseEquals_of_decided {r : Bool} (h : looseStep st a b = .decided r) :
    a.looseEquals st b = r := by
  cases a <;> cases b <;> cases h <;> rfl

/-- Loose equality is decided when no conversion is left. -/
theorem looseSteps_eq {steps : Nat} (h : a.conversions + b.conversions < steps) :
    looseSteps st steps a b = some (a.looseEquals st b) := by
  induction steps generalizing a b with
  | zero => cases h
  | succ steps ih =>
    rw [looseSteps]
    cases hstep : looseStep st a b with
    | decided r => rw [looseEquals_of_decided hstep]
    | converted a' b' =>
      have hless := conversions_of_looseStep hstep
      rw [looseEquals_of_looseStep hstep]
      exact ih (by omega)

/-! ## Structural equality -/

theorem structuralEqualsWithin_record {r r' : Ref} :
    structuralEqualsWithin st (depth + 1) (.record r) (.record r') =
      (r == r' || ((st.record r).length == (st.record r').length &&
        OrderedMap.agrees (structuralEqualsWithin st depth) (st.record r) (st.record r'))) := by
  rw [structuralEqualsWithin, OrderedMap.agrees]
  congr 3
  funext entry
  cases OrderedMap.find? (st.record r') entry.1 <;> rfl

theorem structuralEqualsWithin_list {r r' : Ref} :
    structuralEqualsWithin st (depth + 1) (.list r) (.list r') =
      (r == r' || ((st.list r).size == (st.list r').size &&
        (List.zip (st.list r).toList (st.list r').toList).all fun pair =>
          structuralEqualsWithin st depth pair.1 pair.2)) := by
  rw [structuralEqualsWithin]

/-- How structural equality sees two values: as lists, as records, or otherwise by identity. -/
inductive Compared : Value → Value → Prop where
  | lists (r r' : Ref) : Compared (.list r) (.list r')
  | records (r r' : Ref) : Compared (.record r) (.record r')
  | strictly {a b : Value} (h : ∀ (st : Store) (depth : Nat),
      structuralEqualsWithin st depth a b = a.strictEquals b ∧
        structuralEqualsWithin st depth b a = b.strictEquals a) : Compared a b

theorem structuralEqualsWithin_zero : structuralEqualsWithin st 0 a b = a.strictEquals b := by
  cases a <;> cases b <;> rw [structuralEqualsWithin] <;> simp

theorem compared (a b : Value) : Compared a b := by
  have hstrictly : (∀ r r', a = .list r → b ≠ .list r') → (∀ r r', a = .record r → b ≠ .record r') →
      Compared a b := by
    intro hlist hrecord
    refine .strictly fun st depth => ?_
    cases depth with
    | zero => exact ⟨structuralEqualsWithin_zero, structuralEqualsWithin_zero⟩
    | succ depth =>
      constructor
      · rw [structuralEqualsWithin]
        · exact fun _ r r' _ => hlist r r'
        · exact fun _ r r' _ => hrecord r r'
      · rw [structuralEqualsWithin]
        · exact fun _ r r' _ hb ha => hlist r' r ha hb
        · exact fun _ r r' _ hb ha => hrecord r' r ha hb
  cases a with
  | list r =>
    cases b with
    | list r' => exact .lists r r'
    | _ => exact hstrictly (by simp) (by simp)
  | record r =>
    cases b with
    | record r' => exact .records r r'
    | _ => exact hstrictly (by simp) (by simp)
  | _ => exact hstrictly (by simp) (by simp)

theorem structuralEqualsWithin_of_strictEquals (h : a.strictEquals b = true) :
    structuralEqualsWithin st depth a b = true := by
  cases compared a b with
  | lists r r' | records r r' =>
    have hsame : (r == r') = true := h
    cases depth with
    | zero =>
      rw [structuralEqualsWithin_zero]
      exact h
    | succ depth =>
      first
        | rw [structuralEqualsWithin_list, hsame, Bool.true_or]
        | rw [structuralEqualsWithin_record, hsame, Bool.true_or]
  | strictly hstrict => rw [(hstrict st depth).1, h]

/-- NaN is the only value that is not equal to itself. -/
theorem structuralEqualsWithin_self : structuralEqualsWithin st depth a a = !a.isNaN := by
  by_cases hnan : a.isNaN = true
  · have ha := isNaN_iff.1 hnan
    subst ha
    rw [structuralEqualsWithin, strictEquals_self]
    · simp
    · simp
  · rw [Bool.eq_false_iff.2 hnan]
    refine structuralEqualsWithin_of_strictEquals ?_
    rw [strictEquals_self, Bool.eq_false_iff.2 hnan]
    rfl

/-- Structural equality is symmetric. By induction on the depth; two lists are compared element by
element, and two records of one size have the same keys if one has all keys of the other. -/
theorem structuralEqualsWithin_comm (hkeys : st.DistinctKeys) (depth : Nat) (a b : Value) :
    structuralEqualsWithin st depth a b = structuralEqualsWithin st depth b a := by
  induction depth generalizing a b with
  | zero => rw [structuralEqualsWithin_zero, structuralEqualsWithin_zero, strictEquals_comm]
  | succ depth ih =>
    cases compared a b with
    | lists r r' =>
      rw [structuralEqualsWithin_list, structuralEqualsWithin_list, BEq.comm (a := r),
        BEq.comm (a := (st.list r).size), ← List.zip_swap (st.list r').toList, List.all_map]
      simp only [Function.comp_def, Prod.fst_swap, Prod.snd_swap, ih]
    | records r r' =>
      rw [structuralEqualsWithin_record, structuralEqualsWithin_record, BEq.comm (a := r),
        BEq.comm (a := (st.record r).length)]
      congr 1
      rw [Bool.eq_iff_iff, Bool.and_eq_true, Bool.and_eq_true, beq_iff_eq]
      refine and_congr_right fun hlength => ⟨?_, ?_⟩
      · exact OrderedMap.agrees_symm ih hlength.symm (hkeys r) (hkeys r')
      · exact OrderedMap.agrees_symm ih hlength (hkeys r') (hkeys r)
    | strictly hstrict =>
      rw [(hstrict st _).1, (hstrict st _).2, strictEquals_comm]

/-- The order of keys makes no difference anywhere in the store. By induction on the depth. -/
theorem structuralEqualsWithin_reordered (h : st.Reordered st') (hkeys : st.DistinctKeys)
    (depth : Nat) (a b : Value) :
    structuralEqualsWithin st depth a b = structuralEqualsWithin st' depth a b := by
  induction depth generalizing a b with
  | zero => rw [structuralEqualsWithin_zero, structuralEqualsWithin_zero]
  | succ depth ih =>
    have hlist : ∀ r, st'.list r = st.list r := by
      intro r
      rw [Store.list, Store.list, h.lists]
    have hsame : structuralEqualsWithin st' depth = structuralEqualsWithin st depth := by
      funext a b
      exact (ih a b).symm
    cases compared a b with
    | lists r r' =>
      rw [structuralEqualsWithin_list, structuralEqualsWithin_list, hlist, hlist, hsame]
    | records r r' =>
      rw [structuralEqualsWithin_record, structuralEqualsWithin_record, hsame,
        (h.record r).length_eq, (h.record r').length_eq,
        (OrderedMap.agrees_perm (h.record r) (hkeys r)).1,
        (OrderedMap.agrees_perm (h.record r') (hkeys r')).2]
    | strictly hstrict => rw [(hstrict st _).1, (hstrict st' _).1]

/-- Two records with the same entries are compared with all others alike. -/
theorem structuralEqualsWithin_perm (hkeys : st.DistinctKeys) {r r' : Ref}
    (hperm : (st.record r).Perm (st.record r')) (hr : v ≠ .record r) (hr' : v ≠ .record r') :
    structuralEqualsWithin st depth (.record r) v =
      structuralEqualsWithin st depth (.record r') v := by
  cases depth with
  | zero =>
    rw [structuralEqualsWithin_zero, structuralEqualsWithin_zero]
    cases v with
    | record other =>
      have hne : (r == other) = false := beq_false_of_ne fun h => hr (by rw [h])
      have hne' : (r' == other) = false := beq_false_of_ne fun h => hr' (by rw [h])
      exact hne.trans hne'.symm
    | _ => rfl
  | succ depth =>
    cases v with
    | record other =>
      have hne : (r == other) = false := beq_false_of_ne fun h => hr (by rw [h])
      have hne' : (r' == other) = false := beq_false_of_ne fun h => hr' (by rw [h])
      rw [structuralEqualsWithin_record, structuralEqualsWithin_record, hne, hne',
        hperm.length_eq, (OrderedMap.agrees_perm hperm (hkeys r)).1]
    | _ =>
      rw [structuralEqualsWithin, structuralEqualsWithin] <;> simp [strictEquals]

/-- Two records with the same entries are equal, unless one of the entries is NaN. -/
theorem structuralEqualsWithin_record_iff (hkeys : st.DistinctKeys) {r r' : Ref}
    (hperm : (st.record r).Perm (st.record r')) :
    structuralEqualsWithin st (depth + 1) (.record r) (.record r') = true ↔
      r = r' ∨ ∀ entry ∈ st.record r, entry.2.isNaN = false := by
  have hagrees : OrderedMap.agrees (structuralEqualsWithin st depth) (st.record r) (st.record r') =
      true ↔ ∀ entry ∈ st.record r, entry.2.isNaN = false := by
    rw [OrderedMap.agrees_iff]
    refine forall₂_congr fun entry hentry => ?_
    have hfound : OrderedMap.find? (st.record r') entry.1 = some entry.2 :=
      (OrderedMap.find?_eq_some_iff (hkeys r')).2 (hperm.mem_iff.1 hentry)
    rw [hfound]
    constructor
    · rintro ⟨b, hb, hself⟩
      cases hb
      rw [structuralEqualsWithin_self, Bool.not_eq_true'] at hself
      exact hself
    · intro hnan
      refine ⟨_, rfl, ?_⟩
      rw [structuralEqualsWithin_self, hnan, Bool.not_false]
  rw [structuralEqualsWithin_record, hperm.length_eq, beq_self_eq_true, Bool.true_and,
    Bool.or_eq_true, beq_iff_eq, hagrees]

/-! ## Values without cycles -/

namespace Nested

variable {P : Value → Prop} {levels : Nat}

/-- The string form of a value without cycles is complete: it does not depend on how many references
may be followed. By induction on the levels. -/
theorem displayWithin_eq (h : Nested st P levels v) (hle : levels ≤ depth) :
    displayWithin st depth v = displayWithin st levels v := by
  induction h generalizing depth with
  | @leaf levels v hlist hrecord _ =>
    cases v with
    | list r => exact absurd rfl (hlist r)
    | _ => rw [displayWithin, displayWithin]
  | @list levels ref _ _ ih =>
    obtain ⟨depth, rfl⟩ := Nat.exists_eq_add_of_lt hle
    rw [displayWithin, displayWithin]
    congr 1
    refine List.map_congr_left fun item hitem => ?_
    rw [ih item hitem (by omega)]
  | record => rw [displayWithin, displayWithin]

/-- So is structural equality of such a value with any other. By induction on the levels. -/
theorem structuralEqualsWithin_eq (h : Nested st P levels v) (hle : levels ≤ depth) (w : Value) :
    structuralEqualsWithin st depth v w = structuralEqualsWithin st levels v w := by
  induction h generalizing depth w with
  | @leaf levels v hlist hrecord _ =>
    cases compared v w with
    | lists r r' => exact absurd rfl (hlist r)
    | records r r' => exact absurd rfl (hrecord r)
    | strictly hstrict => rw [(hstrict st _).1, (hstrict st _).1]
  | @list levels ref _ _ ih =>
    obtain ⟨depth, rfl⟩ := Nat.exists_eq_add_of_lt hle
    cases compared (.list ref) w with
    | lists _ r' =>
      rw [structuralEqualsWithin_list, structuralEqualsWithin_list]
      congr 2
      rw [Bool.eq_iff_iff, List.all_eq_true, List.all_eq_true]
      refine forall₂_congr fun pair hpair => ?_
      rw [ih pair.1 (List.of_mem_zip hpair).1 (by omega)]
    | strictly hstrict => rw [(hstrict st _).1, (hstrict st _).1]
  | @record levels ref _ _ ih =>
    obtain ⟨depth, rfl⟩ := Nat.exists_eq_add_of_lt hle
    cases compared (.record ref) w with
    | records _ r' =>
      rw [structuralEqualsWithin_record, structuralEqualsWithin_record]
      congr 2
      rw [Bool.eq_iff_iff, OrderedMap.agrees_iff, OrderedMap.agrees_iff]
      refine forall₂_congr fun entry hentry => exists_congr fun b => ?_
      rw [ih entry hentry (by omega)]
    | strictly hstrict => rw [(hstrict st _).1, (hstrict st _).1]

end Nested

end Value

/-- How the equalities go together, for all values and in every store. Strict equality is symmetric
and transitive, and every value but NaN is strictly equal to itself; sameness is an equivalence,
which differs from strict equality on two NaNs only. Loose equality is symmetric, structural
equality is, and all three follow from strict equality. Loose equality of two operands of one type
is strict; in general it is decided after two conversions at most. The order of keys makes no
difference to structural equality: neither when the records of the store are rearranged, nor between
two records with the same entries, which are equal themselves unless an entry is NaN. If a value has
no cycles, its string form and its structural equality with others do not depend on how many
references may be followed. -/
theorem equalities_coherent (st : Store) (hkeys : st.DistinctKeys) :
    (∀ a b : Value, a.strictEquals b = b.strictEquals a) ∧
    (∀ a b c : Value, a.strictEquals b = true → b.strictEquals c = true →
      a.strictEquals c = true) ∧
    (∀ a : Value, a.strictEquals a = !a.isNaN) ∧
    (Equivalence fun a b : Value => a.sameValue b = true) ∧
    (∀ a b : Value, a.sameValue b ≠ a.strictEquals b ↔ a.isNaN = true ∧ b.isNaN = true) ∧
    (∀ a b : Value, a.looseEquals st b = b.looseEquals st a) ∧
    (∀ a b : Value, a.structuralEquals st b = b.structuralEquals st a) ∧
    (∀ a b : Value, a.strictEquals b = true →
      a.looseEquals st b = true ∧ a.structuralEquals st b = true ∧ a.sameValue b = true) ∧
    (∀ a b : Value, a.ctorIdx = b.ctorIdx → a.looseEquals st b = a.strictEquals b) ∧
    (∀ (a b : Value) (steps : Nat), 2 < steps →
      Value.looseSteps st steps a b = some (a.looseEquals st b)) ∧
    (∀ st', st.Reordered st' → ∀ a b : Value,
      a.structuralEquals st b = a.structuralEquals st' b) ∧
    (∀ r r', (st.record r).Perm (st.record r') →
      (∀ v : Value, v ≠ .record r → v ≠ .record r' →
        (Value.record r).structuralEquals st v = (Value.record r').structuralEquals st v) ∧
      ((Value.record r).structuralEquals st (.record r') = true ↔
        r = r' ∨ ∀ entry ∈ st.record r, entry.2.isNaN = false)) ∧
    ∀ P levels (v : Value), Value.Nested st P levels v → ∀ depth, st.depthBound ≤ depth →
      v.displayWithin st depth = v.display st ∧
      ∀ w, v.structuralEqualsWithin st depth w = v.structuralEquals st w := by
  refine ⟨fun a b => Value.strictEquals_comm, fun a b c => Value.strictEquals_trans,
    fun a => Value.strictEquals_self, Value.equivalence_sameValue,
    fun a b => Value.sameValue_ne_strictEquals_iff, fun a b => Value.looseEquals_comm,
    fun a b => Value.structuralEqualsWithin_comm hkeys _ a b, fun a b h => ?_,
    fun a b => Value.looseEquals_of_ctorIdx, fun a b steps hsteps => ?_, fun st' h a b => ?_,
    fun r r' hperm => ⟨fun v => Value.structuralEqualsWithin_perm hkeys hperm,
      Value.structuralEqualsWithin_record_iff hkeys hperm⟩,
    fun P levels v h depth hdepth => ?_⟩
  · exact ⟨Value.looseEquals_of_strictEquals h, Value.structuralEqualsWithin_of_strictEquals h,
      (Value.strictEquals_iff.1 h).2⟩
  · have ha := a.conversions_le
    have hb := b.conversions_le
    exact Value.looseSteps_eq (by omega)
  · have hbound : st'.depthBound = st.depthBound := by
      rw [Store.depthBound, Store.depthBound, h.lists, h.size]
    rw [Value.structuralEquals, Value.structuralEquals, hbound]
    exact Value.structuralEqualsWithin_reordered h hkeys _ a b
  · have hnested := h.within_depthBound
    exact ⟨hnested.displayWithin_eq hdepth, hnested.structuralEqualsWithin_eq hdepth⟩

/-- Two records with the same entries in different orders, and a list that converts to a number. -/
def recordsInBothOrders : Store where
  lists := #[#[.number 1]]
  records := #[[("a", .number 1), ("b", .null)], [("b", .null), ("a", .number 1)]]

/-- The records are equal although they differ in order and identity, and `true == [1]` holds from
both sides. -/
theorem equalities_coherent_recordsInBothOrders :
    recordsInBothOrders.DistinctKeys ∧ (Value.record 0).strictEquals (.record 1) = false ∧
      (Value.record 0).structuralEquals recordsInBothOrders (.record 1) = true ∧
      (Value.bool true).looseEquals recordsInBothOrders (.list 0) = true ∧
      (Value.list 0).looseEquals recordsInBothOrders (.bool true) = true := by
  have hkeys : recordsInBothOrders.DistinctKeys := by
    intro ref
    match ref with
    | 0 => decide
    | 1 => decide
    | ref + 2 => exact List.nodup_nil
  obtain ⟨-, -, -, -, -, hloose, -, -, -, -, -, hrecords, -⟩ :=
    equalities_coherent recordsInBothOrders hkeys
  have hperm : (recordsInBothOrders.record 0).Perm (recordsInBothOrders.record 1) :=
    List.Perm.swap ..
  have hnumber : ∀ entry ∈ recordsInBothOrders.record 0, entry.2.isNaN = false := by decide
  have hlist : (Value.bool true).looseEquals recordsInBothOrders (.list 0) = true := by decide
  exact ⟨hkeys, by decide, (hrecords 0 1 hperm).2.2 (.inr hnumber), hlist,
    (hloose _ _).trans hlist⟩

end ReactiveScript
