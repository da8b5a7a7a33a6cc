import ReactiveScript.Eval.Loop
import ReactiveScript.Proofs.ElementAccess
import ReactiveScript.Proofs.NumberText

/-!
# Numbers and their text as keys

A number and its text denote the same position below `2 ^ 32 - 1`. Beyond there a number denotes
none, while a text may denote a position that no list and no string of the lengths considered here
has. So elements are read and written by a number and by its text alike, and the keys that a
`for`-`in` loop visits are the texts of the positions.
-/

namespace ReactiveScript

namespace Value

variable {lib : HostLibrary} {st : Store} {object v : Value} {items : List Value} {n : Number}
  {i : Nat} {ref : Ref}

/-! ## Positions -/

theorem numberIndex?_eq_some :
    numberIndex? n = some i ↔ n.toInt? = some (i : Int) ∧ i < 4294967295 := by
  unfold numberIndex?
  cases h : n.toInt? with
  | none => simp
  | some k =>
    dsimp only
    rw [Option.some.injEq]
    by_cases hk : 0 ≤ k ∧ k < 4294967295
    · rw [if_pos hk, Option.some.injEq]
      omega
    · rw [if_neg hk]
      constructor
      · intro hnone
        cases hnone
      · rintro ⟨rfl, hi⟩
        exact absurd ⟨by omega, by omega⟩ hk

theorem arrayIndex?_ofList (cs : List Char) : arrayIndex? (String.ofList cs) =
    if cs.isEmpty || !cs.all Number.isDigit then none
    else if Number.digitsValue cs < 18446744073709551616 then some (Number.digitsValue cs)
    else none := by
  unfold arrayIndex?
  rw [String.toList_ofList]

/-- A number and its text denote the same positions below `2 ^ 32 - 1`. -/
theorem arrayIndex?_format (hi : i < 4294967295) :
    arrayIndex? n.format = some i ↔ numberIndex? n = some i := by
  rw [Number.format, arrayIndex?_ofList, numberIndex?_eq_some]
  constructor
  · intro h
    split at h
    · cases h
    · rename_i hdigits
      split at h
      · have hall : n.chars.all Number.isDigit = true := by
          simp only [Bool.or_eq_true, Bool.not_eq_true', not_or, Bool.not_eq_false] at hdigits
          exact hdigits.2
        have hvalue : Number.digitsValue n.chars = i := Option.some.inj h
        have hinteger := Number.toInt?_of_all_isDigit hall (by omega)
        rw [hvalue] at hinteger
        exact ⟨hinteger, hi⟩
      · cases h
  · rintro ⟨hinteger, -⟩
    have hlimit : 4294967295 ≤ Number.digitLimit := by decide
    have hchars := Number.chars_of_toInt? hinteger (by omega)
    have hsign : decide ((i : Int) < 0) = false := decide_eq_false (by omega)
    have hsigned : n.chars = Decimal.digitsOf i := by
      rw [hchars, hsign]
      rfl
    have hempty : (Decimal.digitsOf i).isEmpty = false := by
      rw [List.isEmpty_eq_false_iff]
      exact Number.digitsOf_ne_nil i
    rw [hsigned, hempty, Number.all_isDigit_digitsOf, Number.digitsValue_digitsOf, if_neg (by decide),
      if_pos (by omega)]

/-- No number is written like the name of the length. -/
theorem format_ne_length (n : Number) : n.format ≠ "length" := by
  intro h
  have hchars : n.chars = "length".toList := by
    rw [← h, Number.format, String.toList_ofList]
  have hall := n.all_isNumberChar_chars
  rw [hchars] at hall
  exact absurd hall (by decide)

/-- What is found at the position of a number is found at that of its text, if nothing is found from
`2 ^ 32 - 1` on. -/
theorem bind_numberIndex? {α : Type} {f : Nat → Option α}
    (hf : ∀ i, 4294967295 ≤ i → f i = none) (n : Number) :
    (numberIndex? n).bind f = (arrayIndex? n.format).bind f := by
  cases hnumber : numberIndex? n with
  | some i =>
    have hi := (numberIndex?_eq_some.1 hnumber).2
    rw [(arrayIndex?_format hi).2 hnumber]
  | none =>
    cases htext : arrayIndex? n.format with
    | none => rfl
    | some i =>
      by_cases hi : i < 4294967295
      · rw [(arrayIndex?_format hi).1 htext] at hnumber
        cases hnumber
      · rw [Option.bind_none, Option.bind_some, hf i (by omega)]

/-! ## Elements -/

/-- The elements of a list, or the characters of a string. -/
def elements? (st : Store) : Value → Option (List Value)
  | .list ref => some (st.list ref).toList
  | .string s => some (s.toList.map fun c => .string (String.singleton c))
  | _ => none

/-- An element is read by a number at its position. -/
theorem getIndex_number (h : object.elements? st = some items) (n : Number) :
    getIndex lib st object (.number n) =
      .ok (((numberIndex? n).bind fun i => items[i]?).getD .null) := by
  cases object with
  | list ref =>
    cases h
    rw [getIndex]
    simp only [Array.getElem?_toList]
  | string s =>
    cases h
    rw [getIndex]
    congr 3
    funext i
    rw [characterAt?_eq, List.getElem?_map]
  | _ => cases h

/-- An element is read by a property name at the position that the name denotes. -/
theorem getIndex_string (h : object.elements? st = some items) {property : String}
    (hlength : property ≠ "length") : getIndex lib st object (.string property) =
      .ok (((arrayIndex? property).bind fun i => items[i]?).getD .null) := by
  have hdisplay : (Value.string property).display st = property := by
    rw [display, displayWithin]
  cases object with
  | list ref =>
    cases h
    show getMember lib st (.list ref) ((Value.string property).display st) = _
    rw [hdisplay, getMember, if_neg hlength]
    simp only [Array.getElem?_toList]
  | string s =>
    cases h
    show getMember lib st (.string s) ((Value.string property).display st) = _
    rw [hdisplay, getMember, if_neg hlength]
    congr 3
    funext i
    rw [characterAt?_eq, List.getElem?_map]
  | _ => cases h

/-- A position that a list does not reach and must not grow to. -/
theorem setElement_refused (h : ¬(i < (st.list ref).size ∨ i < maxListLength)) (v : Value) :
    ∃ text, setElement st ref i v = .error (.typeMismatch text) := by
  rw [setElement, if_neg h]
  exact ⟨_, rfl⟩

/-- A number and its text plan the same write, or none. -/
theorem setIndex_number (lib : HostLibrary) (hsize : (st.list ref).size < 4294967295) (n : Number)
    (v : Value) :
    (∃ w, setIndex lib st (.list ref) (.number n) v = .ok w ∧
        setIndex lib st (.list ref) (.string n.format) v = .ok w) ∨
      ∃ text text', setIndex lib st (.list ref) (.number n) v = .error (.typeMismatch text) ∧
        setIndex lib st (.list ref) (.string n.format) v = .error (.typeMismatch text') := by
  have htextPosition : (Value.string n.format).position? st = arrayIndex? n.format := by
    show arrayIndex? ((Value.string n.format).display st) = _
    rw [display, displayWithin]
  have hnumber : ∀ {i}, numberIndex? n = some i →
      setIndex lib st (.list ref) (.number n) v = setElement st ref i v :=
    fun hi => setIndex_list lib ref v rfl hi
  have htext : ∀ {i}, arrayIndex? n.format = some i →
      setIndex lib st (.list ref) (.string n.format) v = setElement st ref i v :=
    fun hi => setIndex_list lib ref v rfl (htextPosition.trans hi)
  cases hposition : numberIndex? n with
  | some i =>
    have hi := (numberIndex?_eq_some.1 hposition).2
    rw [hnumber hposition, htext ((arrayIndex?_format hi).2 hposition)]
    by_cases hbound : i < (st.list ref).size ∨ i < maxListLength
    · refine .inl ⟨.element ref i v, ?_, ?_⟩ <;> rw [setElement, if_pos hbound]
    · obtain ⟨text, herror⟩ := setElement_refused hbound v
      exact .inr ⟨text, text, herror, herror⟩
  | none =>
    obtain ⟨text, herror⟩ := setIndex_list_none lib ref v rfl (show (Value.number n).position? st =
      none from hposition)
    refine .inr ⟨text, ?_⟩
    rw [herror]
    cases htextIndex : arrayIndex? n.format with
    | none =>
      obtain ⟨text', herror'⟩ := setIndex_list_none lib ref v rfl (htextPosition.trans htextIndex)
      exact ⟨text', rfl, herror'⟩
    | some i =>
      have hlarge : ¬i < 4294967295 := by
        intro hi
        rw [(arrayIndex?_format hi).1 htextIndex] at hposition
        cases hposition
      have hbound : ¬(i < (st.list ref).size ∨ i < maxListLength) := by
        unfold maxListLength
        omega
      obtain ⟨text', herror'⟩ := setElement_refused hbound v
      exact ⟨text', rfl, (htext htextIndex).trans herror'⟩

/-! ## Positions as keys -/

/-- The text of a position is its decimal digits. -/
theorem format_ofNat (hi : i < 2 ^ 53) : (Number.ofNat i).format = i.repr := by
  have hlimit : 2 ^ 53 ≤ Number.digitLimit := by decide
  have hchars := Number.chars_of_toInt? (Number.toInt?_ofNat hi) (by omega)
  have hsign : decide ((i : Int) < 0) = false := decide_eq_false (by omega)
  rw [Number.format, hchars, hsign]
  rfl

theorem numberIndex?_ofNat (hi : i < 4294967295) : numberIndex? (Number.ofNat i) = some i :=
  numberIndex?_eq_some.2 ⟨Number.toInt?_ofNat (by omega), hi⟩

/-- The keys of a list or a string are the texts of its positions. -/
theorem keysOf_eq (ctx : Context) (h : object.elements? st = some items)
    (hlength : items.length < 2 ^ 53) : Rule.keysOf ctx st object =
      (List.range items.length).map fun i => .string (Number.ofNat i).format := by
  have hkeys : Rule.keysOf ctx st object = Rule.indexStrings items.length := by
    cases object with
    | list ref =>
      cases h
      rw [Rule.keysOf, Array.length_toList]
    | string s =>
      cases h
      rw [Rule.keysOf, List.length_map, String.length_toList]
    | _ => cases h
  rw [hkeys, Rule.indexStrings]
  refine List.map_congr_left fun i hi => ?_
  rw [format_ofNat (Nat.lt_trans (List.mem_range.1 hi) hlength)]

end Value

/-- A number and its text are the same key, for every number, every list and every string of less
than `2 ^ 32 - 1` elements: they read the same, and what they write to a list is the same or is
refused as a type mismatch, which changes nothing. The keys that a `for`-`in` loop visits are the
texts of the positions, and each reads the element that its number does. -/
theorem number_keys_are_their_text (ctx : Context) (s : State) :
    (∀ object items, Value.elements? s.store object = some items → items.length < 2 ^ 32 - 1 →
      (∀ n : Number, Rule.readIndex ctx object (.number n) s =
        Rule.readIndex ctx object (.string n.format) s) ∧
      (Rule.keysOf ctx s.store object =
        (List.range items.length).map fun i => .string (Number.ofNat i).format) ∧
      ∀ i, (hi : i < items.length) →
        Rule.readIndex ctx object (.string (Number.ofNat i).format) s = .ok items[i] s ∧
        Rule.readIndex ctx object (.number (Number.ofNat i)) s = .ok items[i] s) ∧
    ∀ ref, (s.store.list ref).size < 2 ^ 32 - 1 → ∀ (n : Number) (v : Value),
      (∃ s', Rule.writeIndex ctx (.list ref) (.number n) v s = .ok () s' ∧
        Rule.writeIndex ctx (.list ref) (.string n.format) v s = .ok () s') ∨
      ∃ text text',
        Rule.writeIndex ctx (.list ref) (.number n) v s = .error (.of (.typeMismatch text)) s ∧
        Rule.writeIndex ctx (.list ref) (.string n.format) v s =
          .error (.of (.typeMismatch text')) s := by
  refine ⟨fun object items hitems hlength => ?_, fun ref hsize n v => ?_⟩
  · have hsame : ∀ n : Number, Rule.readIndex ctx object (.number n) s =
        Rule.readIndex ctx object (.string n.format) s := by
      intro n
      have hbeyond : ∀ i, 4294967295 ≤ i → items[i]? = none := fun i hi =>
        List.getElem?_eq_none (by omega)
      rw [Rule.readIndex_ok (Value.getIndex_number hitems n),
        Rule.readIndex_ok (Value.getIndex_string hitems (Value.format_ne_length n)),
        Value.bind_numberIndex? hbeyond n]
    have hread : ∀ i, (hi : i < items.length) →
        Rule.readIndex ctx object (.number (Number.ofNat i)) s = .ok items[i] s := by
      intro i hi
      rw [Rule.readIndex_ok (Value.getIndex_number hitems _), Value.numberIndex?_ofNat (by omega),
        Option.bind_some, List.getElem?_eq_getElem hi, Option.getD_some]
    refine ⟨hsame, Value.keysOf_eq ctx hitems (by omega), fun i hi => ⟨?_, hread i hi⟩⟩
    rw [← hsame, hread i hi]
  · rcases Value.setIndex_number ctx.library hsize n v with ⟨w, hnumber, htext⟩ |
      ⟨text, text', hnumber, htext⟩
    · exact .inl ⟨_, Rule.writeIndex_ok hnumber, Rule.writeIndex_ok htext⟩
    · exact .inr ⟨text, text', Rule.writeIndex_error hnumber, Rule.writeIndex_error htext⟩

/-- A list with one element is read by the negative zero as by its text, its only key is `"0"`, and
neither an infinity nor its text can be written. -/
theorem number_keys_are_their_text_oneElement :
    Value.elements? oneElement.store (.list 0) = some [.number 1] ∧
      (Rule.readIndex plainContext (.list 0) (.number (Number.zero true)) oneElement =
        Rule.readIndex plainContext (.list 0) (.string (Number.zero true).format) oneElement) ∧
      Rule.keysOf plainContext oneElement.store (.list 0) = [.string (Number.ofNat 0).format] ∧
      Rule.readIndex plainContext (.list 0) (.string (Number.ofNat 0).format) oneElement =
        .ok (.number 1) oneElement ∧
      (oneElement.store.list 0).size < 2 ^ 32 - 1 ∧
      ∃ text, Rule.writeIndex plainContext (.list 0)
          (.string (Number.infinity true).format) .null oneElement =
        .error (.of (.typeMismatch text)) oneElement := by
  have hitems : Value.elements? oneElement.store (.list 0) = some [.number 1] := rfl
  have hsize : (oneElement.store.list 0).size < 2 ^ 32 - 1 := by decide
  obtain ⟨helements, hwrites⟩ := number_keys_are_their_text plainContext oneElement
  obtain ⟨hsame, hkeys, hread⟩ := helements _ _ hitems (by decide)
  refine ⟨hitems, hsame _, hkeys, (hread 0 (by decide)).1, hsize, ?_⟩
  have hnone : Value.position? oneElement.store (.number (Number.infinity true)) = none := by
    decide
  obtain ⟨text, hplan⟩ :=
    Value.setIndex_list_none plainContext.library 0 .null rfl hnone
  rcases hwrites 0 hsize (Number.infinity true) .null with ⟨s', hnumber, -⟩ | ⟨_, text', -, htext⟩
  · rw [Rule.writeIndex_error hplan] at hnumber
    cases hnumber
  · exact ⟨text', htext⟩

end ReactiveScript
