import Mathlib
import ReactiveScript.Value.Property

/-!
# Positions in words of 64 bits

Positions of elements are naturals, and are bounded where they are read. Here they are read and
compared in words of 64 bits, each step of which is checked. Nothing is lost by that: a chain of
checked steps has a result exactly if the exact result fits into a word, and it is that result.
-/

namespace ReactiveScript

/-! ## The value of digits -/

namespace Number

/-- The value of decimal digits after others with the given value. -/
def digitsAfter (value : Nat) (digits : List Char) : Nat :=
  digits.foldl (fun value c => value * 10 + (digit? c).getD 0) value

theorem digitsAfter_cons (value : Nat) (c : Char) (rest : List Char) :
    digitsAfter value (c :: rest) = digitsAfter (value * 10 + (digit? c).getD 0) rest :=
  rfl

/-- More digits do not make a value smaller. -/
theorem le_digitsAfter (value : Nat) (digits : List Char) : value ≤ digitsAfter value digits := by
  induction digits generalizing value with
  | nil => exact Nat.le_refl value
  | cons c rest ih =>
    rw [digitsAfter_cons]
    have hrest := ih (value * 10 + (digit? c).getD 0)
    omega

theorem digit?_le (c : Char) : (digit? c).getD 0 ≤ 9 := by
  unfold digit?
  by_cases hc : '0' ≤ c ∧ c ≤ '9'
  · have hle : c.toNat ≤ '9'.toNat := hc.2
    rw [if_pos hc, Option.getD_some]
    have hnine : '9'.toNat = 57 := rfl
    have hzero : '0'.toNat = 48 := rfl
    omega
  · rw [if_neg hc, Option.getD_none]
    exact Nat.zero_le 9

theorem digitsValue_eq (digits : List Char) : digitsValue digits = digitsAfter 0 digits :=
  digitsValue_eq_foldl digits

end Number

/-! ## Words -/

/-- A word of 64 bits. -/
abbrev Word := BitVec 64

namespace Word

/-- The word of a natural that fits into one. -/
def ofNat? (n : Nat) : Option Word := if n < 2 ^ 64 then some (BitVec.ofNat 64 n) else none

/-- A sum that fits into a word. -/
def add? (a b : Word) : Option Word := if a.uaddOverflow b then none else some (a + b)

/-- A product that fits into a word. -/
def mul? (a b : Word) : Option Word := if a.umulOverflow b then none else some (a * b)

/-- Reads decimal digits after others whose value is known. Each product and each sum is checked. -/
def readDigits : (value : Word) → List Char → Option Word
  | value, [] => some value
  | value, c :: rest => do
    let scaled ← mul? value 10
    let value ← add? scaled (BitVec.ofNat 64 ((Number.digit? c).getD 0))
    readDigits value rest

/-- The position that a property name denotes. -/
def ofProperty? (property : String) : Option Word :=
  let digits := property.toList
  if digits.isEmpty || !digits.all Number.isDigit then none else readDigits 0 digits

/-- The length of a list after a write at a position. A list that has to grow must stay within the
greatest length, and its new length is a checked sum. -/
def lengthAfter? (length i : Word) : Option Word :=
  if length ≤ i then (add? i 1).filter fun length => length.toNat ≤ Value.maxListLength
  else some length

/-! ## Checked steps are exact -/

variable {a b : Word} {n : Nat}

theorem map_toNat_ofNat? : (ofNat? n).map BitVec.toNat = if n < 2 ^ 64 then some n else none := by
  unfold ofNat?
  by_cases hn : n < 2 ^ 64
  · rw [if_pos hn, if_pos hn, Option.map_some, BitVec.toNat_ofNat, Nat.mod_eq_of_lt hn]
  · rw [if_neg hn, if_neg hn, Option.map_none]

theorem ofNat?_toNat (a : Word) : ofNat? a.toNat = some a := by
  rw [ofNat?, if_pos a.isLt, BitVec.ofNat_toNat, BitVec.setWidth_eq]

/-- A word is the word of what it denotes. -/
theorem eq_of_toNat (h : a.toNat = n) : some a = ofNat? n := by
  rw [← h, ofNat?_toNat]

theorem add?_eq (a b : Word) : add? a b = ofNat? (a.toNat + b.toNat) := by
  unfold add?
  by_cases hover : a.uaddOverflow b = true
  · have hlarge : ¬ a.toNat + b.toNat < 2 ^ 64 := by
      simpa [BitVec.uaddOverflow] using hover
    rw [if_pos hover, ofNat?, if_neg hlarge]
  · rw [if_neg hover]
    exact eq_of_toNat (BitVec.toNat_add_of_not_uaddOverflow hover)

theorem mul?_eq (a b : Word) : mul? a b = ofNat? (a.toNat * b.toNat) := by
  unfold mul?
  by_cases hover : a.umulOverflow b = true
  · have hlarge : ¬ a.toNat * b.toNat < 2 ^ 64 := by
      simpa [BitVec.umulOverflow] using hover
    rw [if_pos hover, ofNat?, if_neg hlarge]
  · rw [if_neg hover]
    exact eq_of_toNat (BitVec.toNat_mul_of_not_umulOverflow hover)

/-! ## Reading digits -/

/-- Digits are read exactly if their value fits into a word: a step that does not fit leaves no
chance to the value of all digits. By induction on the digits. -/
theorem readDigits_eq (value : Word) (digits : List Char) :
    readDigits value digits = ofNat? (Number.digitsAfter value.toNat digits) := by
  induction digits generalizing value with
  | nil => exact (ofNat?_toNat value).symm
  | cons c rest ih =>
    have hdigit := Number.digit?_le c
    have hword : (BitVec.ofNat 64 ((Number.digit? c).getD 0)).toNat = (Number.digit? c).getD 0 := by
      rw [BitVec.toNat_ofNat, Nat.mod_eq_of_lt (by omega)]
    have hten : (10 : Word).toNat = 10 := rfl
    have hrest := Number.le_digitsAfter (value.toNat * 10 + (Number.digit? c).getD 0) rest
    rw [readDigits, mul?_eq, hten, Number.digitsAfter_cons]
    by_cases hscaled : value.toNat * 10 < 2 ^ 64
    · have hscaledWord : (BitVec.ofNat 64 (value.toNat * 10)).toNat = value.toNat * 10 := by
        rw [BitVec.toNat_ofNat, Nat.mod_eq_of_lt hscaled]
      rw [ofNat?, if_pos hscaled]
      show (add? _ _ >>= fun value => readDigits value rest) = _
      rw [add?_eq, hscaledWord, hword]
      by_cases hnext : value.toNat * 10 + (Number.digit? c).getD 0 < 2 ^ 64
      · rw [ofNat?, if_pos hnext]
        show readDigits _ rest = _
        rw [ih, BitVec.toNat_ofNat, Nat.mod_eq_of_lt hnext]
      · rw [ofNat?, if_neg hnext, ofNat?, if_neg (by omega)]
        rfl
    · rw [ofNat?, if_neg hscaled, ofNat?, if_neg (by omega)]
      rfl

/-- Positions that property names denote are read in words. -/
theorem map_toNat_ofProperty? (property : String) :
    (ofProperty? property).map BitVec.toNat = Value.arrayIndex? property := by
  unfold ofProperty? Value.arrayIndex?
  dsimp only
  split
  · rfl
  · rw [readDigits_eq, map_toNat_ofNat?, Number.digitsValue_eq]
    rfl

/-! ## Growing -/

/-- The length after a write is computed in words. -/
theorem map_toNat_lengthAfter? (length i : Word) :
    (lengthAfter? length i).map BitVec.toNat =
      if i.toNat < length.toNat ∨ i.toNat < Value.maxListLength then
        some (max length.toNat (i.toNat + 1))
      else none := by
  have hone : (1 : Word).toNat = 1 := rfl
  have hmax : Value.maxListLength < 2 ^ 64 := by decide
  unfold lengthAfter?
  by_cases hbeyond : length ≤ i
  · have hle : length.toNat ≤ i.toNat := hbeyond
    rw [if_pos hbeyond, add?_eq, hone]
    by_cases hfits : i.toNat < Value.maxListLength
    · have hword : (BitVec.ofNat 64 (i.toNat + 1)).toNat = i.toNat + 1 := by
        rw [BitVec.toNat_ofNat, Nat.mod_eq_of_lt (by omega)]
      have hkept : decide ((BitVec.ofNat 64 (i.toNat + 1)).toNat ≤ Value.maxListLength) = true := by
        rw [hword, decide_eq_true_eq]
        omega
      rw [if_pos (.inr hfits), ofNat?, if_pos (by omega), Option.filter_some, hkept, if_pos rfl,
        Option.map_some, hword]
      congr 1
      omega
    · rw [if_neg (by omega)]
      unfold ofNat?
      by_cases hword : i.toNat + 1 < 2 ^ 64
      · rw [if_pos hword, Option.filter_some, BitVec.toNat_ofNat, Nat.mod_eq_of_lt hword,
          decide_eq_false (by omega), if_neg Bool.false_ne_true, Option.map_none]
      · rw [if_neg hword, Option.filter_none, Option.map_none]
  · have hlt : i.toNat < length.toNat := Nat.lt_of_not_le hbeyond
    rw [if_neg hbeyond, if_pos (.inl hlt), Option.map_some]
    congr 1
    omega

end Word

end ReactiveScript
