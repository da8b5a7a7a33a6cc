import Mathlib
import ReactiveScript.Store

/-!
# Nesting

A value without cycles has finitely many levels of lists and records. It never has more of them than
the store has containers, so that whoever follows `Store.depthBound` references sees all of it.
-/

namespace ReactiveScript

namespace Value

/-- A value with at most the given number of nested containers, all parts of which have a property.
As a level is used up by each container, no container holds itself. -/
inductive Nested (st : Store) (P : Value → Prop) : Nat → Value → Prop
  | leaf {levels : Nat} {v : Value} (hlist : ∀ ref, v ≠ .list ref)
      (hrecord : ∀ ref, v ≠ .record ref) (hv : P v) : Nested st P levels v
  | list {levels : Nat} {ref : Ref} (hv : P (.list ref))
      (hitems : ∀ item ∈ (st.list ref).toList, Nested st P levels item) :
      Nested st P (levels + 1) (.list ref)
  | record {levels : Nat} {ref : Ref} (hv : P (.record ref))
      (hentries : ∀ entry ∈ st.record ref, Nested st P levels entry.2) :
      Nested st P (levels + 1) (.record ref)

namespace Nested

variable {st : Store} {P : Value → Prop} {levels levels' : Nat} {v : Value}

theorem mono (h : Nested st P levels v) (hle : levels ≤ levels') : Nested st P levels' v := by
  induction h generalizing levels' with
  | leaf hlist hrecord hv => exact .leaf hlist hrecord hv
  | list hv _ ih =>
    obtain ⟨levels', rfl⟩ := Nat.exists_eq_add_of_lt hle
    exact .list hv fun item hitem => ih item hitem (by omega)
  | record hv _ ih =>
    obtain ⟨levels', rfl⟩ := Nat.exists_eq_add_of_lt hle
    exact .record hv fun entry hentry => ih entry hentry (by omega)

/-! ## The number of levels

If a value needs a number of levels, one of its parts needs one level less. All these parts are
different, and all but the innermost are containers of the store. -/

/-- The value that a slot of the store belongs to. -/
def container (st : Store) : Fin st.lists.size ⊕ Fin st.records.size → Value
  | .inl ref => .list ref
  | .inr ref => .record ref

/-- One part of a value that needs more than one level needs exactly one level less. -/
theorem exists_part (h : Nested st P (levels + 2) v) (hexact : ¬Nested st P (levels + 1) v) :
    ∃ part, Nested st P (levels + 1) part ∧ ¬Nested st P levels part := by
  by_contra hnone
  have hless : ∀ part, Nested st P (levels + 1) part → Nested st P levels part := by
    intro part hpart
    by_contra hneeds
    exact hnone ⟨part, hpart, hneeds⟩
  apply hexact
  cases h with
  | leaf hlist hrecord hv => exact .leaf hlist hrecord hv
  | list hv hitems => exact .list hv fun item hitem => hless item (hitems item hitem)
  | record hv hentries => exact .record hv fun entry hentry => hless entry.2 (hentries entry hentry)

/-- A value that needs more than one level is a container of the store: others hold nothing. -/
theorem exists_slot (h : Nested st P (levels + 2) v) (hexact : ¬Nested st P (levels + 1) v) :
    ∃ slot, container st slot = v := by
  cases h with
  | leaf hlist hrecord hv => exact absurd (.leaf hlist hrecord hv) hexact
  | @list _ ref hv _ =>
    by_cases hsize : ref < st.lists.size
    · exact ⟨.inl ⟨ref, hsize⟩, rfl⟩
    · refine absurd (.list hv ?_) hexact
      have hempty : st.list ref = #[] := by simp [Store.list, Array.getD, hsize]
      intro item hitem
      rw [hempty] at hitem
      cases hitem
  | @record _ ref hv _ =>
    by_cases hsize : ref < st.records.size
    · exact ⟨.inr ⟨ref, hsize⟩, rfl⟩
    · refine absurd (.record hv ?_) hexact
      have hempty : st.record ref = [] := by simp [Store.record, Array.getD, hsize]
      intro entry hentry
      rw [hempty] at hentry
      cases hentry

/-- Below a value that needs a number of levels, every smaller number is needed by some part. -/
theorem exists_of_le {k : Nat} (h : Nested st P (levels + 1) v) (hexact : ¬Nested st P levels v)
    (hk : k ≤ levels) : ∃ part, Nested st P (k + 1) part ∧ ¬Nested st P k part := by
  induction levels generalizing v with
  | zero =>
    obtain rfl : k = 0 := by omega
    exact ⟨v, h, hexact⟩
  | succ levels ih =>
    rcases Nat.lt_or_eq_of_le hk with hlt | rfl
    · obtain ⟨part, hpart, hneeds⟩ := exists_part h hexact
      exact ih hpart hneeds (by omega)
    · exact ⟨v, h, hexact⟩

/-- A value needs at most one level more than the store has containers. -/
theorem levels_le (h : Nested st P (levels + 1) v) (hexact : ¬Nested st P levels v) :
    levels ≤ st.lists.size + st.records.size := by
  have hslots : ∀ k : Fin levels, ∃ slot, Nested st P (k + 2) (container st slot) ∧
      ¬Nested st P (k + 1) (container st slot) := by
    intro k
    obtain ⟨part, hpart, hneeds⟩ := exists_of_le h hexact (Nat.succ_le_of_lt k.isLt)
    obtain ⟨slot, rfl⟩ := exists_slot hpart hneeds
    exact ⟨slot, hpart, hneeds⟩
  choose slot hslot hneeds using hslots
  have hinjective : Function.Injective slot := by
    intro j k heq
    have hjk := hslot j
    have hkj := hslot k
    rw [heq] at hjk
    rw [← heq] at hkj
    have hnot_lt : ¬j < k := fun hlt => hneeds k (hjk.mono (Nat.succ_le_succ hlt))
    have hnot_gt : ¬k < j := fun hlt => hneeds j (hkj.mono (Nat.succ_le_succ hlt))
    omega
  have hcard := Fintype.card_le_of_injective slot hinjective
  rwa [Fintype.card_sum, Fintype.card_fin, Fintype.card_fin, Fintype.card_fin] at hcard

/-- The bound of the store is enough for every value without cycles. -/
theorem within_depthBound (h : Nested st P levels v) : Nested st P st.depthBound v := by
  induction levels with
  | zero => exact h.mono (Nat.zero_le _)
  | succ levels ih =>
    by_cases hexact : Nested st P levels v
    · exact ih hexact
    · refine h.mono ?_
      have hle := levels_le h hexact
      unfold Store.depthBound
      omega

end Nested

end Value

end ReactiveScript
