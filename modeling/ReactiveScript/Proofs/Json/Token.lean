import ReactiveScript.Json.Write
import ReactiveScript.Proofs.Integers

/-!
# Reading tokens that were written

Blanks, words, numbers and strings: in front of whatever may follow them in a written tree, the
reader takes exactly their characters. The position that a cursor carries matters for errors only,
so that these lemmas say where a reader stops by what is left of the text.
-/

namespace ReactiveScript

namespace Number

/-! ## Digits -/

theorem digit?_digitChar : ∀ {d : Nat}, d < 10 → digit? (Nat.digitChar d) = some d := by
  decide

theorem hexDigit?_digitChar : ∀ {d : Nat}, d < 16 → hexDigit? (Nat.digitChar d) = some d := by
  decide

/-- Every character of a written natural is a digit. -/
theorem isDigit_of_mem_digitsOf {k : Nat} {c : Char} (h : c ∈ Decimal.digitsOf k) :
    isDigit c = true := by
  unfold Decimal.digitsOf at h
  induction k using Nat.strongRecOn with
  | _ k ih =>
    rw [Nat.toDigits_eq_if (by omega)] at h
    split at h
    · rename_i hk
      obtain rfl := List.mem_singleton.1 h
      rw [isDigit, digit?_digitChar hk]
      rfl
    · rcases List.mem_append.1 h with hfirst | hlast
      · exact ih (k / 10) (by omega) hfirst
      · obtain rfl := List.mem_singleton.1 hlast
        rw [isDigit, digit?_digitChar (by omega)]
        rfl

/-- Only zero starts with a zero. -/
theorem head?_digitsOf_ne {k : Nat} (hk : k ≠ 0) : (Decimal.digitsOf k).head? ≠ some '0' := by
  unfold Decimal.digitsOf
  induction k using Nat.strongRecOn with
  | _ k ih =>
    rw [Nat.toDigits_eq_if (by omega)]
    split
    · intro h
      exact hk (Nat.digitChar_eq_zero.1 (Option.some.inj h))
    · have hnil : Nat.toDigits 10 (k / 10) ≠ [] := Nat.toDigits_ne_nil
      rw [List.head?_append_of_ne_nil _ hnil]
      exact ih (k / 10) (by omega) (by omega)

end Number

namespace Json

variable {α : Type} {rest : List Char} {cur : Cursor}

/-- The reader succeeds with `a` and stops in front of `rest`. -/
def Reads (result : Except ReadError (α × Cursor)) (a : α) (rest : List Char) : Prop :=
  ∃ cur : Cursor, result = .ok (a, cur) ∧ cur.rest = rest

/-! ## Cursors -/

namespace Cursor

@[simp]
theorem rest_after (cur : Cursor) (c : Char) (rest : List Char) :
    (cur.after c rest).rest = rest := by
  unfold after
  split <;> rfl

theorem rest_advance (cs : List Char) (cur : Cursor) :
    (advance cs cur).rest = cur.rest.drop cs.length := by
  induction cs generalizing cur with
  | nil => rfl
  | cons c cs ih => rw [advance, ih, rest_after, List.drop_drop, List.length_cons, Nat.add_comm]

/-- Characters in front that all pass a test are passed over, up to the first that does not. -/
theorem rest_advance_takeWhile {p : Char → Bool} {front : List Char}
    (h : cur.rest = front ++ rest) (hfront : ∀ c ∈ front, p c = true)
    (hrest : ∀ c ∈ rest.head?, p c = false) :
    cur.rest.takeWhile p = front ∧ (advance front cur).rest = rest := by
  have hnone : rest.takeWhile p = [] := by
    cases rest with
    | nil => rfl
    | cons c rest => rw [List.takeWhile_cons, hrest c rfl]; rfl
  constructor
  · rw [h, List.takeWhile_append_of_pos hfront, hnone, List.append_nil]
  · rw [rest_advance, h, List.drop_left]

/-- Blanks in front of a character that is none are passed over. -/
theorem rest_skipSpace {blanks : List Char} (h : cur.rest = blanks ++ rest)
    (hblanks : ∀ c ∈ blanks, isSpace c = true) (hrest : ∀ c ∈ rest.head?, isSpace c = false) :
    cur.skipSpace.rest = rest := by
  obtain ⟨htake, hadvance⟩ := rest_advance_takeWhile h hblanks hrest
  rw [skipSpace, htake, hadvance]

/-- Nothing is passed over in front of a character that is no blank. -/
theorem rest_skipSpace_cons {c : Char} (h : cur.rest = c :: rest) (hc : isSpace c = false) :
    cur.skipSpace.rest = c :: rest := by
  refine rest_skipSpace (h.trans (List.nil_append _).symm) (List.forall_mem_nil _) ?_
  intro c' hc'
  obtain rfl := Option.some.inj hc'
  exact hc

end Cursor

/-! ## Words -/

theorem readWord_append (word : List Char) (h : cur.rest = word ++ rest) :
    ∃ cur' : Cursor, readWord word cur = .ok cur' ∧ cur'.rest = rest := by
  induction word generalizing cur with
  | nil => exact ⟨cur, rfl, h⟩
  | cons letter word ih =>
    rw [List.cons_append] at h
    rw [readWord, h]
    dsimp only
    rw [if_pos rfl]
    exact ih (cur.rest_after letter (word ++ rest))

/-! ## Numbers -/

/-- What may follow a number: nothing that could be part of one. -/
def EndsNumber (rest : List Char) : Prop :=
  ∀ c ∈ rest.head?, Number.isDigit c = false ∧ c ≠ '.' ∧ c ≠ 'e' ∧ c ≠ 'E'

/-- The digits of a natural that fits denote it, and none is dropped. -/
theorem integerDigits_digitsOf {k : Nat} (hk : k ≤ maxSignificand) :
    integerDigits (Decimal.digitsOf k) = (k, 0) := by
  unfold Decimal.digitsOf
  induction k using Nat.strongRecOn with
  | _ k ih =>
    rw [Nat.toDigits_eq_if (by omega)]
    split
    · rename_i hlt
      simp only [integerDigits, List.foldl_cons, List.foldl_nil, Number.digit?_digitChar hlt,
        Option.getD_some, Nat.zero_mul, Nat.zero_add, true_and, if_pos hk]
    · have hlast : k % 10 < 10 := Nat.mod_lt k (by omega)
      have hjoin : k / 10 * 10 + k % 10 = k := Nat.div_add_mod' k 10
      have hfirst := ih (k / 10) (by omega) (by omega)
      unfold integerDigits at hfirst ⊢
      rw [List.foldl_append, hfirst]
      simp only [List.foldl_cons, List.foldl_nil, Number.digit?_digitChar hlast, Option.getD_some,
        hjoin, true_and, if_pos hk]

/-- An integer part with all its digits is the number, if nothing else belongs to it. -/
theorem readAfterInteger_ends (negative : Bool) (significand : Nat) (h : EndsNumber cur.rest) :
    readAfterInteger negative significand 0 cur =
      .ok (withSign negative (Number.ofNat significand), cur) := by
  unfold readAfterInteger
  split
  · rename_i hrest
    exact absurd rfl (h '.' (by rw [hrest]; rfl)).2.1
  · rename_i c _ _ hrest
    obtain ⟨-, -, he, hE⟩ := h c (by rw [hrest]; rfl)
    rw [if_neg]
    simp [he, hE]
  · rfl

theorem readNumber_digitsOf (negative : Bool) {k : Nat} (hk : k ≤ maxSignificand)
    (h : cur.rest = Decimal.digitsOf k ++ rest) (hrest : EndsNumber rest) :
    Reads (readNumber negative cur) (withSign negative (Number.ofNat k)) rest := by
  rcases Nat.eq_zero_or_pos k with rfl | hpos
  · have hzero : Decimal.digitsOf 0 = ['0'] := rfl
    rw [hzero, List.singleton_append] at h
    have hends : EndsNumber (cur.after '0' rest).rest := by rwa [Cursor.rest_after]
    refine ⟨cur.after '0' rest, ?_, Cursor.rest_after _ _ _⟩
    have hdigit : Number.isDigit '0' = true := by decide
    rw [readNumber, h]
    dsimp only
    rw [hdigit, if_neg (by simp), if_pos rfl]
    cases rest with
    | nil => exact readAfterInteger_ends negative 0 hends
    | cons c rest =>
      dsimp only
      rw [(hrest c rfl).1, if_neg Bool.false_ne_true]
      exact readAfterInteger_ends negative 0 hends
  · obtain ⟨htake, hadvance⟩ := Cursor.rest_advance_takeWhile h
      (fun c hc => Number.isDigit_of_mem_digitsOf hc) (fun c hc => (hrest c hc).1)
    have hhead := Number.head?_digitsOf_ne (by omega : k ≠ 0)
    cases hdigits : Decimal.digitsOf k with
    | nil => exact absurd hdigits Nat.toDigits_ne_nil
    | cons c digits =>
      have hc : c ≠ '0' := by
        rintro rfl
        exact hhead (by rw [hdigits]; rfl)
      have hdigit : Number.isDigit c = true :=
        Number.isDigit_of_mem_digitsOf (by rw [hdigits]; exact List.mem_cons_self)
      refine ⟨Cursor.advance (Decimal.digitsOf k) cur, ?_, hadvance⟩
      have hfront : cur.rest = c :: (digits ++ rest) := by rw [h, hdigits, List.cons_append]
      unfold readNumber
      rw [htake]
      dsimp only
      rw [integerDigits_digitsOf hk]
      split
      · rename_i hnil
        rw [hfront] at hnil
        cases hnil
      · rename_i hcons
        rw [hfront] at hcons
        obtain ⟨rfl, -⟩ := List.cons.inj hcons
        rw [hdigit, if_neg (by simp), if_neg hc]
        exact readAfterInteger_ends negative k (by rwa [hadvance])

/-! ## Strings -/

theorem readHex4_digits {c : Char} (hc : c.toNat < 0x20)
    (h : cur.rest = '0' :: '0' :: hexDigit (c.toNat / 16) :: hexDigit c.toNat :: rest) :
    Reads (readHex4 cur) c.toNat rest := by
  have hzero : Number.hexDigit? '0' = some 0 := by decide
  have hhigh : Number.hexDigit? (hexDigit (c.toNat / 16)) = some (c.toNat / 16) := by
    rw [hexDigit, Number.hexDigit?_digitChar (Nat.mod_lt _ (by omega)), Nat.mod_eq_of_lt (by omega)]
  have hlow : Number.hexDigit? (hexDigit c.toNat) = some (c.toNat % 16) :=
    Number.hexDigit?_digitChar (Nat.mod_lt _ (by omega))
  have hjoin : ((0 * 16 + 0) * 16 + c.toNat / 16) * 16 + c.toNat % 16 = c.toNat := by omega
  refine ⟨⟨rest, cur.line, cur.column + 4⟩, ?_, rfl⟩
  rw [readHex4, h]
  dsimp only
  rw [hzero, hhigh, hlow]
  dsimp only
  rw [hjoin]

/-- An escaped control character is read as this character. -/
theorem readUnicode_digits {c : Char} (hc : c.toNat < 0x20)
    (h : cur.rest = '0' :: '0' :: hexDigit (c.toNat / 16) :: hexDigit c.toNat :: rest) :
    Reads (readUnicode cur) c rest := by
  obtain ⟨cur', hread, hcur'⟩ := readHex4_digits hc h
  refine ⟨cur', ?_, hcur'⟩
  rw [readUnicode, hread]
  dsimp only
  rw [if_neg (by omega), if_neg (by omega), Char.ofNat_toNat]

/-- The characters that have an escape of two characters, with the second of these. -/
def marks : List (Char × Char) :=
  [('"', '"'), ('\\', '\\'), ('\x08', 'b'), ('\x0c', 'f'), ('\n', 'n'), ('\r', 'r'), ('\t', 't')]

theorem readEscape_mark {c mark : Char} (hmark : (c, mark) ∈ marks) (h : cur.rest = mark :: rest) :
    Reads (readEscape cur) c rest := by
  refine ⟨cur.after mark rest, ?_, Cursor.rest_after _ _ _⟩
  rw [readEscape, h]
  simp only [marks, List.mem_cons, Prod.mk.injEq, List.not_mem_nil, or_false] at hmark
  rcases hmark with ⟨rfl, rfl⟩ | ⟨rfl, rfl⟩ | ⟨rfl, rfl⟩ | ⟨rfl, rfl⟩ | ⟨rfl, rfl⟩ | ⟨rfl, rfl⟩ |
    ⟨rfl, rfl⟩ <;> rfl

/-- A character inside quotes is escaped by a mark, escaped by its code, or stands for itself. -/
theorem escape_cases (c : Char) :
    (∃ mark, (c, mark) ∈ marks ∧ escape c = ['\\', mark]) ∨
    (c.toNat < 0x20 ∧
      escape c = ['\\', 'u', '0', '0', hexDigit (c.toNat / 16), hexDigit c.toNat]) ∨
    (c ≠ '"' ∧ c ≠ '\\' ∧ ¬c.toNat < 0x20 ∧ escape c = [c]) := by
  by_cases hmark : c ∈ marks.map Prod.fst
  · refine Or.inl ?_
    simp only [marks, List.map_cons, List.map_nil, List.mem_cons, List.not_mem_nil, or_false]
      at hmark
    rcases hmark with rfl | rfl | rfl | rfl | rfl | rfl | rfl
    · exact ⟨'"', by decide, rfl⟩
    · exact ⟨'\\', by decide, rfl⟩
    · exact ⟨'b', by decide, rfl⟩
    · exact ⟨'f', by decide, rfl⟩
    · exact ⟨'n', by decide, rfl⟩
    · exact ⟨'r', by decide, rfl⟩
    · exact ⟨'t', by decide, rfl⟩
  · simp only [marks, List.map_cons, List.map_nil, List.mem_cons, List.not_mem_nil, or_false,
      not_or] at hmark
    obtain ⟨hquote, hbackslash, hb, hf, hn, hr, ht⟩ := hmark
    unfold escape
    rw [if_neg hquote, if_neg hbackslash, if_neg hb, if_neg hf, if_neg hn, if_neg hr, if_neg ht]
    by_cases hcontrol : c.toNat < 0x20
    · exact Or.inr (Or.inl ⟨hcontrol, if_pos hcontrol⟩)
    · exact Or.inr (Or.inr ⟨hquote, hbackslash, hcontrol, if_neg hcontrol⟩)

/-- After a backslash, the reader goes on with the character that was escaped. -/
theorem readString_backslash {fuel : Nat} {seen letters : List Char} {c : Char}
    (h : cur.rest = '\\' :: letters ++ rest)
    (hread : ∀ {cur' : Cursor}, cur'.rest = letters ++ rest → Reads (readEscape cur') c rest) :
    ∃ cur' : Cursor, readString (fuel + 1) seen cur = readString fuel (c :: seen) cur' ∧
      cur'.rest = rest := by
  rw [List.cons_append] at h
  obtain ⟨cur', hescape, hcur'⟩ := hread (cur.rest_after '\\' (letters ++ rest))
  refine ⟨cur', ?_, hcur'⟩
  rw [readString, h]
  dsimp only
  rw [if_neg (by decide), if_pos rfl, hescape]

/-- What is written of a character inside quotes is read as this character. -/
theorem readString_escape (fuel : Nat) (seen : List Char) {c : Char}
    (h : cur.rest = escape c ++ rest) :
    ∃ cur' : Cursor, readString (fuel + 1) seen cur = readString fuel (c :: seen) cur' ∧
      cur'.rest = rest := by
  rcases escape_cases c with ⟨mark, hmark, hescape⟩ | ⟨hcontrol, hescape⟩ |
    ⟨hquote, hbackslash, hcontrol, hescape⟩
  · rw [hescape] at h
    exact readString_backslash h fun hcur => readEscape_mark hmark hcur
  · rw [hescape] at h
    refine readString_backslash h fun {cur'} hcur => ?_
    rw [readEscape, hcur]
    exact readUnicode_digits hcontrol (cur'.rest_after 'u' _)
  · rw [hescape, List.singleton_append] at h
    refine ⟨cur.after c rest, ?_, Cursor.rest_after _ _ _⟩
    rw [readString, h]
    dsimp only
    rw [if_neg hquote, if_neg hbackslash, if_neg hcontrol]

/-- The reader finds the characters of a string and stops behind the closing quote. -/
theorem readString_flatMap_escape {fuel : Nat} (cs seen : List Char) (hfuel : cs.length < fuel)
    (h : cur.rest = cs.flatMap escape ++ '"' :: rest) :
    Reads (readString fuel seen cur) (String.ofList (seen.reverse ++ cs)) rest := by
  obtain ⟨fuel, rfl⟩ := Nat.exists_eq_add_of_lt hfuel
  clear hfuel
  induction cs generalizing cur seen with
  | nil =>
    refine ⟨cur.after '"' rest, ?_, Cursor.rest_after _ _ _⟩
    rw [readString, h, List.append_nil]
    rfl
  | cons c cs ih =>
    rw [List.flatMap_cons, List.append_assoc] at h
    obtain ⟨cur', hstep, hcur'⟩ := readString_escape (cs.length + fuel + 1) seen h
    have hrest := ih (c :: seen) hcur'
    rw [List.reverse_cons, List.append_assoc] at hrest
    rw [List.length_cons, show cs.length + 1 + fuel + 1 = cs.length + fuel + 1 + 1 by omega, hstep]
    exact hrest

theorem length_le_flatMap_escape (cs : List Char) : cs.length ≤ (cs.flatMap escape).length := by
  induction cs with
  | nil => exact Nat.le_refl 0
  | cons c cs ih =>
    have hpos : 0 < (escape c).length := by
      rcases escape_cases c with ⟨_, _, hescape⟩ | ⟨_, hescape⟩ | ⟨_, _, _, hescape⟩ <;>
        simp [hescape]
    rw [List.flatMap_cons, List.length_append, List.length_cons]
    omega

/-- A quoted string is read back. -/
theorem readString_quote {fuel : Nat} (s : String) (hfuel : (quote s).length ≤ fuel + 1)
    (h : '"' :: cur.rest = quote s ++ rest) : Reads (readString fuel [] cur) s rest := by
  have hlength := length_le_flatMap_escape s.toList
  rw [quote, List.length_append, List.length_cons, List.length_singleton] at hfuel
  rw [quote, List.cons_append, List.cons_append, List.append_assoc, List.singleton_append] at h
  have hread := readString_flatMap_escape s.toList [] (by omega : s.toList.length < fuel)
    (List.cons.inj h).2
  rw [List.reverse_nil, List.nil_append, String.ofList_toList] at hread
  exact hread

end Json

end ReactiveScript
