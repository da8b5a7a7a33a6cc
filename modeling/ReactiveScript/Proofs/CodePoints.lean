import Mathlib
import ReactiveScript.Value.Operator

/-!
# Strings in the order of their code points

Strings are compared by their bytes in UTF-8. The encodings of two different characters differ at a
byte that both of them have, and there the smaller character has the smaller byte. So the bytes of
two strings compare as their code points do, and the comparison operators are a total order on
strings whose equality is the strict one.
-/

namespace ReactiveScript

namespace Text

/-- The code points of a text. -/
def codePoints (s : String) : List Nat := s.toList.map Char.toNat

/-! ## Bytes that differ -/

/-- Two sequences of bytes differ at a position that both have, and the first of them is smaller
there. What follows that position does not matter. -/
inductive Precedes : List UInt8 → List UInt8 → Prop where
  | here {a b : UInt8} {l m : List UInt8} : a < b → Precedes (a :: l) (b :: m)
  | later {a : UInt8} {l m : List UInt8} : Precedes l m → Precedes (a :: l) (a :: m)

variable {l m : List UInt8} {x y : Nat} {c d : Char}

theorem Precedes.append (h : Precedes l m) (u v : List UInt8) : Precedes (l ++ u) (m ++ v) := by
  induction h with
  | here hlt => exact .here hlt
  | later _ ih => exact .later ih

theorem Precedes.compare_eq (h : Precedes l m) : compare l m = .lt ∧ compare m l = .gt := by
  induction h with
  | here hlt =>
    rw [List.compare_cons_cons, List.compare_cons_cons, Std.compare_eq_lt.2 hlt,
      Std.compare_eq_gt.2 hlt]
    exact ⟨rfl, rfl⟩
  | later _ ih =>
    rw [List.compare_cons_cons, List.compare_cons_cons, Std.compare_self]
    exact ih

theorem compare_append_left (l u v : List UInt8) : compare (l ++ u) (l ++ v) = compare u v := by
  induction l with
  | nil => rfl
  | cons a l ih =>
    rw [List.cons_append, List.cons_append, List.compare_cons_cons, Std.compare_self]
    exact ih

/-! ## The encodings of characters -/

theorem ofNat_lt_ofNat (h : x < y) (hy : y < 256) : UInt8.ofNat x < UInt8.ofNat y := by
  rw [UInt8.lt_iff_toNat_lt, UInt8.toNat_ofNat', UInt8.toNat_ofNat', Nat.mod_eq_of_lt hy,
    Nat.mod_eq_of_lt (h.trans hy)]
  exact h

/-- The first bytes decide unless they are equal. -/
theorem Precedes.cons (hle : x ≤ y) (hy : y < 256) (hrest : x = y → Precedes l m) :
    Precedes (UInt8.ofNat x :: l) (UInt8.ofNat y :: m) := by
  rcases Nat.lt_or_eq_of_le hle with hlt | rfl
  · exact .here (ofNat_lt_ofNat hlt hy)
  · exact .later (hrest rfl)

/-- The smaller of two characters has the smaller byte where their encodings differ. The first byte
tells the number of bytes, and grows with it; of two encodings of one length, the bytes are the
digits of the code points. -/
theorem precedes_utf8EncodeChar (h : c < d) :
    Precedes (String.utf8EncodeChar c) (String.utf8EncodeChar d) := by
  have hlt : c.val.toNat < d.val.toNat := h
  have hmax : d.val.toNat < 0x110000 := by
    rcases d.valid with hlow | ⟨-, hhigh⟩
    · omega
    · exact hhigh
  unfold String.utf8EncodeChar
  dsimp only
  generalize c.val.toNat = x at hlt ⊢
  generalize d.val.toNat = y at hlt hmax ⊢
  by_cases hy1 : y ≤ 0x7f
  · rw [if_pos hy1, if_pos (by omega)]
    exact .here (ofNat_lt_ofNat hlt (by omega))
  rw [if_neg hy1]
  by_cases hx1 : x ≤ 0x7f
  · rw [if_pos hx1]
    split
    · exact .here (ofNat_lt_ofNat (by omega) (by omega))
    · split <;> exact .here (ofNat_lt_ofNat (by omega) (by omega))
  rw [if_neg hx1]
  by_cases hy2 : y ≤ 0x7ff
  · rw [if_pos hy2, if_pos (by omega)]
    refine .cons (by omega) (by omega) fun hfirst => ?_
    exact .here (ofNat_lt_ofNat (by omega) (by omega))
  rw [if_neg hy2]
  by_cases hx2 : x ≤ 0x7ff
  · rw [if_pos hx2]
    split <;> exact .here (ofNat_lt_ofNat (by omega) (by omega))
  rw [if_neg hx2]
  by_cases hy3 : y ≤ 0xffff
  · rw [if_pos hy3, if_pos (by omega)]
    refine .cons (by omega) (by omega) fun hfirst => ?_
    refine .cons (by omega) (by omega) fun hsecond => ?_
    exact .here (ofNat_lt_ofNat (by omega) (by omega))
  rw [if_neg hy3]
  by_cases hx3 : x ≤ 0xffff
  · rw [if_pos hx3]
    exact .here (ofNat_lt_ofNat (by omega) (by omega))
  · rw [if_neg hx3]
    refine .cons (by omega) (by omega) fun hfirst => ?_
    refine .cons (by omega) (by omega) fun hsecond => ?_
    refine .cons (by omega) (by omega) fun hthird => ?_
    exact .here (ofNat_lt_ofNat (by omega) (by omega))

theorem utf8EncodeChar_eq_cons (c : Char) : ∃ a l, String.utf8EncodeChar c = a :: l := by
  unfold String.utf8EncodeChar
  dsimp only
  split
  · exact ⟨_, _, rfl⟩
  split
  · exact ⟨_, _, rfl⟩
  split <;> exact ⟨_, _, rfl⟩

/-! ## Texts -/

theorem bytes_eq (s : String) : bytes s = s.toList.flatMap String.utf8EncodeChar := by
  rw [bytes, ← String.utf8Encode_toList]
  simp [List.utf8Encode]

/-- The bytes of characters compare as their code points do. By induction on both lists: equal
characters have equal encodings, and different ones decide. -/
theorem compare_flatMap_utf8EncodeChar (cs ds : List Char) :
    compare (cs.flatMap String.utf8EncodeChar) (ds.flatMap String.utf8EncodeChar) =
      compare (cs.map Char.toNat) (ds.map Char.toNat) := by
  induction cs generalizing ds with
  | nil =>
    cases ds with
    | nil => rfl
    | cons d ds =>
      obtain ⟨a, l, hbytes⟩ := utf8EncodeChar_eq_cons d
      rw [List.flatMap_cons, hbytes]
      rfl
  | cons c cs ih =>
    cases ds with
    | nil =>
      obtain ⟨a, l, hbytes⟩ := utf8EncodeChar_eq_cons c
      rw [List.flatMap_cons, hbytes]
      rfl
    | cons d ds =>
      rw [List.flatMap_cons, List.flatMap_cons, List.map_cons, List.map_cons,
        List.compare_cons_cons]
      rcases lt_trichotomy c d with hlt | rfl | hgt
      · have hnat : c.toNat < d.toNat := hlt
        rw [((precedes_utf8EncodeChar hlt).append _ _).compare_eq.1, compare_lt_iff_lt.2 hnat]
        rfl
      · rw [compare_append_left, ih, Std.compare_self]
        rfl
      · have hnat : d.toNat < c.toNat := hgt
        rw [((precedes_utf8EncodeChar hgt).append _ _).compare_eq.2, compare_gt_iff_gt.2 hnat]
        rfl

theorem compareBytes_eq (a b : String) :
    compareBytes a b = compare (codePoints a) (codePoints b) := by
  rw [compareBytes, bytes_eq, bytes_eq, compare_flatMap_utf8EncodeChar]
  rfl

/-- The lexicographic order, as a comparison with three results and as a relation. -/
theorem compare_eq_lt_iff {l m : List Nat} : compare l m = .lt ↔ l < m := by
  induction l generalizing m with
  | nil =>
    cases m with
    | nil => simp
    | cons b m => simp [List.compare_nil_cons]
  | cons a l ih =>
    cases m with
    | nil => simp [List.compare_cons_nil]
    | cons b m =>
      rw [List.compare_cons_cons, Ordering.then_eq_lt, Nat.compare_eq_lt, Nat.compare_eq_eq, ih,
        List.cons_lt_cons_iff]

theorem isLE_compare_iff {l m : List Nat} : (compare l m).isLE ↔ l ≤ m := by
  rw [← not_lt, ← compare_eq_lt_iff, ← Std.OrientedCmp.gt_iff_lt, Ordering.isLE_iff_ne_gt]

theorem codePoints_injective : Function.Injective codePoints := fun _ _ h =>
  String.toList_injective (List.map_injective_iff.2 (fun _ _ => Char.toNat_inj.1) h)

end Text

/-! ## Comparison operators -/

namespace Value

variable {st : Store} {a b : String}

/-- An operator holds of two strings. -/
def HoldsOfStrings (st : Store) (op : BinaryOp) (a b : String) : Prop :=
  applyBinary st op (.string a) (.string b) = .ok (.bool true)

open Text

theorem compareStrings_lt : compareStrings .lt a b = decide (codePoints a < codePoints b) := by
  rw [compareStrings, compareBytes_eq, Bool.eq_iff_iff, Ordering.isLT_iff_eq_lt, compare_eq_lt_iff,
    decide_eq_true_iff]

theorem compareStrings_le : compareStrings .le a b = decide (codePoints a ≤ codePoints b) := by
  rw [compareStrings, compareBytes_eq, Bool.eq_iff_iff, isLE_compare_iff, decide_eq_true_iff]

/-- The converses compare the same two strings the other way round. -/
theorem compareStrings_converse : compareStrings .gt a b = compareStrings .lt b a ∧
    compareStrings .ge a b = compareStrings .le b a := by
  have hswap : compareBytes a b = (compareBytes b a).swap := by
    unfold compareBytes
    exact Std.OrientedCmp.eq_swap
  constructor
  · rw [compareStrings, compareStrings, hswap, Ordering.isGT_swap]
  · rw [compareStrings, compareStrings, hswap, Ordering.isGE_swap]

theorem holdsOfStrings_lt : HoldsOfStrings st .lt a b ↔ codePoints a < codePoints b := by
  show Except.ok (bool (compareStrings .lt a b)) = Except.ok (bool true) ↔ _
  rw [compareStrings_lt, Except.ok.injEq, bool.injEq, decide_eq_true_iff]

theorem holdsOfStrings_le : HoldsOfStrings st .le a b ↔ codePoints a ≤ codePoints b := by
  show Except.ok (bool (compareStrings .le a b)) = Except.ok (bool true) ↔ _
  rw [compareStrings_le, Except.ok.injEq, bool.injEq, decide_eq_true_iff]

theorem holdsOfStrings_strictEq : HoldsOfStrings st .strictEq a b ↔ a = b := by
  show Except.ok (bool (a == b)) = Except.ok (bool true) ↔ _
  rw [Except.ok.injEq, bool.injEq, beq_iff_eq]

theorem isStrictTotalOrder_lt (st : Store) :
    IsStrictTotalOrder String (HoldsOfStrings st .lt) where
  irrefl _ h := lt_irrefl _ (holdsOfStrings_lt.1 h)
  trans _ _ _ hab hbc :=
    holdsOfStrings_lt.2 ((holdsOfStrings_lt.1 hab).trans (holdsOfStrings_lt.1 hbc))
  trichotomous _ _ hab hba :=
    codePoints_injective (le_antisymm (not_lt.1 (mt holdsOfStrings_lt.2 hba))
      (not_lt.1 (mt holdsOfStrings_lt.2 hab)))

end Value

/-- Strings compare by their bytes in UTF-8 as the lists of their code points do, and the four
comparison operators go by that: `<` is a strict total order on strings, `<=` is the negation of its
converse, `>` and `>=` are the converses of both, and `<=` both ways is `===`. -/
theorem strings_compare_by_code_points (st : Store) :
    (∀ a b : String,
      Text.compareBytes a b = compare (Text.codePoints a) (Text.codePoints b) ∧
      Value.applyBinary st .lt (.string a) (.string b) =
        .ok (.bool (decide (Text.codePoints a < Text.codePoints b))) ∧
      Value.applyBinary st .le (.string a) (.string b) =
        .ok (.bool (decide (Text.codePoints a ≤ Text.codePoints b))) ∧
      Value.applyBinary st .gt (.string a) (.string b) =
        Value.applyBinary st .lt (.string b) (.string a) ∧
      Value.applyBinary st .ge (.string a) (.string b) =
        Value.applyBinary st .le (.string b) (.string a)) ∧
    IsStrictTotalOrder String (Value.HoldsOfStrings st .lt) ∧
    ∀ a b : String,
      (Value.HoldsOfStrings st .le a b ↔ ¬Value.HoldsOfStrings st .lt b a) ∧
      (Value.HoldsOfStrings st .le a b ∧ Value.HoldsOfStrings st .le b a ↔
        Value.HoldsOfStrings st .strictEq a b) := by
  refine ⟨fun a b => ⟨Text.compareBytes_eq a b, ?_, ?_, ?_, ?_⟩, Value.isStrictTotalOrder_lt st,
    fun a b => ⟨?_, ?_⟩⟩
  · exact congrArg (fun result => Except.ok (Value.bool result)) Value.compareStrings_lt
  · exact congrArg (fun result => Except.ok (Value.bool result)) Value.compareStrings_le
  · exact congrArg (fun result => Except.ok (Value.bool result)) Value.compareStrings_converse.1
  · exact congrArg (fun result => Except.ok (Value.bool result)) Value.compareStrings_converse.2
  · rw [Value.holdsOfStrings_le, Value.holdsOfStrings_lt, not_lt]
  · rw [Value.holdsOfStrings_le, Value.holdsOfStrings_le, Value.holdsOfStrings_strictEq,
      ← le_antisymm_iff, Text.codePoints_injective.eq_iff]

/-- The last code point below `2 ^ 16` comes before the first above, though its code units in 16
bits would not. -/
example : Value.compareStrings .lt "a\uffff" "a😀" = true := by decide

end ReactiveScript
