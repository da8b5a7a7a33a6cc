import ReactiveScript.Proofs.Json.Token
import ReactiveScript.Proofs.MapKeys

/-!
# Reading trees that were written

A tree of integers, strings, distinct keys and a limited nesting is read back from its text,
whatever blanks the layout puts between its parts. The order of items and keys is kept; only a
negative zero loses its sign.
-/

namespace ReactiveScript

namespace Json

variable {sp : Spacing} {limit fuel depth : Nat} {j : Json} {cur : Cursor} {rest : List Char}

/-! ## Trees -/

/-- Two trees of one form whose numbers are equal. -/
inductive Same : Json → Json → Prop
  | null : Same .null .null
  | bool (b : Bool) : Same (.bool b) (.bool b)
  | number {n m : Number} (h : n.equals m = true) : Same (.number n) (.number m)
  | string (s : String) : Same (.string s) (.string s)
  | array {items items' : List Json} (hitems : List.Forall₂ Same items items') :
      Same (.array items) (.array items')
  | object {entries entries' : OrderedMap Json}
      (hkeys : OrderedMap.keys entries = OrderedMap.keys entries')
      (hvalues : List.Forall₂ Same (entries.map Prod.snd) (entries'.map Prod.snd)) :
      Same (.object entries) (.object entries')

/-- A tree with at most the given number of nested containers, with integers of a magnitude below
`2 ^ 53` for numbers and without repeated keys. -/
inductive Plain : Nat → Json → Prop
  | null {levels : Nat} : Plain levels .null
  | bool {levels : Nat} (b : Bool) : Plain levels (.bool b)
  | number {levels : Nat} {n : Number} {i : Int} (hn : n.toInt? = some i)
      (hi : i.natAbs < integerLimit) : Plain levels (.number n)
  | string {levels : Nat} (s : String) : Plain levels (.string s)
  | array {levels : Nat} {items : List Json} (hitems : ∀ j ∈ items, Plain levels j) :
      Plain (levels + 1) (.array items)
  | object {levels : Nat} {entries : OrderedMap Json} (hkeys : (OrderedMap.keys entries).Nodup)
      (hentries : ∀ entry ∈ entries, Plain levels entry.2) : Plain (levels + 1) (.object entries)

/-! ## Spacing -/

/-- A layout that puts nothing but blanks and colons between the parts of a tree. -/
structure Spacing.Blank (sp : Spacing) : Prop where
  /-- Blanks stand before items and closing brackets. -/
  gap : ∀ depth, ∀ c ∈ sp.gap depth, Cursor.isSpace c = true
  /-- Blanks follow the colon. -/
  colon : ∃ blanks, sp.colon = ':' :: blanks ∧ ∀ c ∈ blanks, Cursor.isSpace c = true

theorem Spacing.blank_compact : Spacing.compact.Blank where
  gap := by
    intro depth c hc
    cases hc
  colon := ⟨[], rfl, by simp⟩

theorem Spacing.blank_indented : Spacing.indented.Blank where
  gap := by
    intro depth c hc
    rcases List.mem_cons.1 hc with rfl | hc
    · rfl
    · rw [List.eq_of_mem_replicate hc]
      rfl
  colon := ⟨[' '], rfl, by simp [Cursor.isSpace]⟩

/-! ## What stands around a tree -/

/-- The text of a tree starts with a character that is no blank and closes no container. -/
def StartsTree (cs : List Char) : Prop :=
  ∃ c tail, cs = c :: tail ∧ Cursor.isSpace c = false ∧ c ≠ ']' ∧ c ≠ '\x7d'

theorem StartsTree.append {cs : List Char} (h : StartsTree cs) (rest : List Char) :
    StartsTree (cs ++ rest) := by
  obtain ⟨c, tail, rfl, hc⟩ := h
  exact ⟨c, tail ++ rest, rfl, hc⟩

theorem StartsTree.length_pos {cs : List Char} (h : StartsTree cs) : 0 < cs.length := by
  obtain ⟨c, tail, rfl, -⟩ := h
  exact Nat.succ_pos tail.length

theorem StartsTree.not_isSpace {cs : List Char} (h : StartsTree cs) :
    ∀ c ∈ cs.head?, Cursor.isSpace c = false := by
  obtain ⟨c, tail, rfl, hc, -⟩ := h
  intro c' hc'
  obtain rfl := Option.some.inj hc'
  exact hc

theorem startsTree_quote (s : String) : StartsTree (quote s) := by
  refine ⟨'"', s.toList.flatMap escape ++ ['"'], rfl, ?_⟩
  decide

/-- Blanks end a number, if what follows them does. -/
theorem endsNumber_gap {blanks : List Char} (hblanks : ∀ c ∈ blanks, Cursor.isSpace c = true)
    (hrest : EndsNumber rest) : EndsNumber (blanks ++ rest) := by
  cases blanks with
  | nil => exact hrest
  | cons c blanks =>
    intro c' hc'
    obtain rfl := Option.some.inj hc'
    have hspace := hblanks c List.mem_cons_self
    simp only [Cursor.isSpace, Bool.or_eq_true, beq_iff_eq] at hspace
    rcases hspace with ((rfl | rfl) | rfl) | rfl <;> decide

theorem endsNumber_cons {c : Char} (rest : List Char) (hc : c = ',' ∨ c = ']' ∨ c = '\x7d') :
    EndsNumber (c :: rest) := by
  intro c' hc'
  obtain rfl := Option.some.inj hc'
  rcases hc with rfl | rfl | rfl <;> decide

/-- A tree is read wherever its text stands, behind blanks and in front of what ends a number. -/
structure Readable (sp : Spacing) (limit : Nat) (j : Json) : Prop where
  /-- How the text starts. -/
  starts : ∀ depth, StartsTree (chars sp depth j)
  /-- The reader finds the tree, and stops behind its text. -/
  reads : ∀ {fuel depth : Nat} {cur : Cursor} {blanks rest : List Char},
    (chars sp depth j).length ≤ fuel → (∀ c ∈ blanks, Cursor.isSpace c = true) → EndsNumber rest →
    cur.rest = blanks ++ (chars sp depth j ++ rest) →
    ∃ j', Reads (readValue fuel limit cur) j' rest ∧ Same j j'

/-- It is enough to read a tree behind no blanks, since the reader passes over these. -/
theorem Readable.intro (starts : ∀ depth, StartsTree (chars sp depth j))
    (reads : ∀ {fuel depth : Nat} {cur : Cursor} {rest : List Char},
      (chars sp depth j).length ≤ fuel + 1 → EndsNumber rest →
      cur.skipSpace.rest = chars sp depth j ++ rest →
      ∃ j', Reads (readValue (fuel + 1) limit cur) j' rest ∧ Same j j') :
    Readable sp limit j where
  starts := starts
  reads := by
    intro fuel depth cur blanks rest hfuel hblanks hrest h
    obtain ⟨fuel, rfl⟩ : ∃ fuel', fuel = fuel' + 1 := by
      have hpos := (starts depth).length_pos
      exact ⟨fuel - 1, by omega⟩
    exact reads hfuel hrest
      (Cursor.rest_skipSpace h hblanks ((starts depth).append rest).not_isSpace)

/-! ## Leaves -/

/-- A tree that is written as a word is read by its first letter and the others. -/
theorem readable_word (first : Char) (letters : List Char)
    (hchars : ∀ depth, chars sp depth j = first :: letters)
    (hstarts : StartsTree (first :: letters)) (hsame : Same j j)
    (hread : ∀ {fuel : Nat} {cur cur' : Cursor} {tail : List Char},
      cur.skipSpace.rest = first :: tail →
      readWord letters (cur.skipSpace.after first tail) = .ok cur' →
      readValue (fuel + 1) limit cur = .ok (j, cur')) : Readable sp limit j := by
  refine .intro (fun depth => (hchars depth).symm ▸ hstarts) ?_
  intro fuel depth cur rest _ _ h
  rw [hchars, List.cons_append] at h
  obtain ⟨cur', hword, hcur'⟩ :=
    readWord_append letters (cur.skipSpace.rest_after first (letters ++ rest))
  exact ⟨j, ⟨cur', hread h hword, hcur'⟩, hsame⟩

theorem readable_null : Readable sp limit .null := by
  refine readable_word 'n' ['u', 'l', 'l'] (fun _ => rfl) ⟨_, _, rfl, by decide⟩ .null ?_
  intro fuel cur cur' tail h hword
  rw [readValue, h]
  simp only [hword]

theorem readable_bool (b : Bool) : Readable sp limit (.bool b) := by
  cases b with
  | true =>
    refine readable_word 't' ['r', 'u', 'e'] (fun _ => rfl) ⟨_, _, rfl, by decide⟩ (.bool true) ?_
    intro fuel cur cur' tail h hword
    rw [readValue, h]
    simp only [hword]
  | false =>
    refine readable_word 'f' ['a', 'l', 's', 'e'] (fun _ => rfl) ⟨_, _, rfl, by decide⟩
      (.bool false) ?_
    intro fuel cur cur' tail h hword
    rw [readValue, h]
    simp only [hword]

theorem readable_string (s : String) : Readable sp limit (.string s) := by
  refine .intro (fun _ => startsTree_quote s) ?_
  intro fuel depth cur rest hfuel _ h
  obtain ⟨tail, htail⟩ : ∃ tail, quote s ++ rest = '"' :: tail := ⟨_, rfl⟩
  replace h : cur.skipSpace.rest = '"' :: tail := h.trans htail
  have hquote : '"' :: (cur.skipSpace.after '"' tail).rest = quote s ++ rest := by
    rw [Cursor.rest_after, htail]
  obtain ⟨cur', hread, hcur'⟩ := readString_quote s hfuel hquote
  refine ⟨.string s, ⟨cur', ?_, hcur'⟩, .string s⟩
  rw [readValue, h]
  simp only [hread]

/-- The text of a small integer is its sign and its digits. -/
theorem writeNumber_eq {n : Number} {i : Int} (hn : n.toInt? = some i)
    (hi : i.natAbs < integerLimit) :
    writeNumber n = Number.signed (decide (i < 0)) (Decimal.digitsOf i.natAbs) := by
  obtain ⟨negative, coefficient, exponent, hshape, -⟩ := Number.toInt?_eq_some hn
  unfold writeNumber
  rw [hshape, hn]
  exact if_pos hi

/-- A digit starts a number without sign. -/
theorem readValue_digit {c : Char} {tail : List Char} (h : cur.skipSpace.rest = c :: tail)
    (hc : Number.isDigit c = true) {n : Number}
    (hread : Reads (readNumber false cur.skipSpace) n rest) :
    Reads (readValue (fuel + 1) limit cur) (.number n) rest := by
  obtain ⟨cur', hread, hcur'⟩ := hread
  refine ⟨cur', ?_, hcur'⟩
  have hother : ∀ {c' : Char} {tail' : List Char}, cur.skipSpace.rest = c' :: tail' →
      Number.isDigit c' = true := by
    intro c' tail' h'
    rw [h] at h'
    rw [← (List.cons.inj h').1]
    exact hc
  unfold readValue
  dsimp only
  split
  case h_1 hnil =>
    rw [h] at hnil
    cases hnil
  case h_9 heq => rw [if_pos (hother heq), hread]
  all_goals
    rename_i heq
    exact absurd (hother heq) (by decide)

/-- A digit is no blank and closes no container. -/
theorem startsTree_cons_digit {c : Char} (hc : Number.isDigit c = true) (tail : List Char) :
    StartsTree (c :: tail) := by
  have hne : ∀ c', Number.isDigit c' = false → c ≠ c' := by
    rintro c' hc' rfl
    rw [hc] at hc'
    cases hc'
  refine ⟨c, tail, rfl, ?_, hne ']' (by decide), hne '\x7d' (by decide)⟩
  simp [Cursor.isSpace, hne ' ' (by decide), hne '\n' (by decide), hne '\t' (by decide),
    hne '\r' (by decide)]

theorem readable_number {n : Number} {i : Int} (hn : n.toInt? = some i)
    (hi : i.natAbs < integerLimit) : Readable sp limit (.number n) := by
  have hequals := Number.equals_withSign_ofNat hn
  have hfits : i.natAbs ≤ maxSignificand := Nat.le_trans (Nat.le_of_lt hi) (by decide)
  have hchars : ∀ depth, chars sp depth (.number n) =
      Number.signed (decide (i < 0)) (Decimal.digitsOf i.natAbs) := by
    intro depth
    rw [chars, writeNumber_eq hn hi]
  obtain ⟨c, digits, hdigits⟩ : ∃ c digits, Decimal.digitsOf i.natAbs = c :: digits :=
    List.exists_cons_of_ne_nil Nat.toDigits_ne_nil
  have hc : Number.isDigit c = true :=
    Number.isDigit_of_mem_digitsOf (by rw [hdigits]; exact List.mem_cons_self)
  cases hnegative : decide (i < 0) with
  | true =>
    rw [hnegative] at hchars hequals
    refine .intro (fun depth => ⟨'-', Decimal.digitsOf i.natAbs, hchars depth, by decide⟩) ?_
    intro fuel depth cur rest _ hrest h
    rw [hchars] at h
    replace h : cur.skipSpace.rest = '-' :: (Decimal.digitsOf i.natAbs ++ rest) := h
    obtain ⟨cur', hread, hcur'⟩ := readNumber_digitsOf true hfits
      (cur.skipSpace.rest_after '-' (Decimal.digitsOf i.natAbs ++ rest)) hrest
    refine ⟨_, ⟨cur', ?_, hcur'⟩, .number hequals⟩
    rw [readValue, h]
    simp only [hread]
  | false =>
    rw [hnegative] at hchars hequals
    refine .intro (fun depth => ?_) ?_
    · rw [hchars, Number.signed, if_neg Bool.false_ne_true, hdigits]
      exact startsTree_cons_digit hc digits
    · intro fuel depth cur rest _ hrest h
      rw [hchars] at h
      replace h : cur.skipSpace.rest = Decimal.digitsOf i.natAbs ++ rest := h
      have hread := readNumber_digitsOf false hfits h hrest
      rw [hdigits, List.cons_append] at h
      exact ⟨_, readValue_digit h hc hread, .number hequals⟩

/-! ## Arrays -/

section Array

variable {seen : List Json}

/-- A closing bracket ends an array. -/
theorem readItems_close (h : cur.skipSpace.rest = ']' :: rest) :
    Reads (readItems (fuel + 1) limit seen cur) (.array seen.reverse) rest := by
  refine ⟨cur.skipSpace.after ']' rest, ?_, Cursor.rest_after _ _ _⟩
  rw [readItems, h]
  rfl

/-- The first item of an array has no comma before it. -/
theorem readItems_first (h : StartsTree cur.skipSpace.rest) {cur' : Cursor}
    (hread : readValue fuel limit cur.skipSpace = .ok (j, cur')) :
    readItems (fuel + 1) limit [] cur = readItems fuel limit [j] cur' := by
  obtain ⟨c, tail, hfront, -, hclose, -⟩ := h
  rw [readItems, hfront]
  split
  case h_1 hnil => cases hnil
  case h_2 heq => exact absurd (List.cons.inj heq).1 hclose
  case h_3 => rw [List.isEmpty_nil, if_pos rfl, hread]

/-- Any other item follows a comma. -/
theorem readItems_next {tail : List Char} (hseen : seen ≠ []) (h : cur.skipSpace.rest = ',' :: tail)
    (hstarts : StartsTree (cur.skipSpace.after ',' tail).skipSpace.rest) {cur' : Cursor}
    (hread : readValue fuel limit (cur.skipSpace.after ',' tail).skipSpace = .ok (j, cur')) :
    readItems (fuel + 1) limit seen cur = readItems fuel limit (j :: seen) cur' := by
  obtain ⟨c, tail', hfront, -, hclose, -⟩ := hstarts
  have hempty : seen.isEmpty = false := by simpa using hseen
  rw [readItems, h]
  split
  case h_1 hnil => cases hnil
  case h_2 heq => exact absurd (List.cons.inj heq).1 (by decide)
  case h_3 heq =>
    obtain ⟨rfl, rfl⟩ := List.cons.inj heq
    rw [hempty, if_neg Bool.false_ne_true, if_pos rfl]
    dsimp only
    rw [hfront]
    split
    case h_1 hnil => cases hnil
    case h_2 heq => exact absurd (List.cons.inj heq).1 hclose
    case h_3 => rw [hread]

theorem endsNumber_itemChars (hrest : EndsNumber rest) (items : List Json) :
    EndsNumber (itemChars sp depth items ++ rest) := by
  cases items with
  | nil => exact hrest
  | cons j items => exact endsNumber_cons _ (Or.inl rfl)

/-- The items after the first are read up to the closing bracket. -/
theorem readItems_itemChars (hsp : sp.Blank) {items : List Json}
    (hitems : ∀ j ∈ items, Readable sp limit j) {closing : List Char}
    (hclosing : ∀ c ∈ closing, Cursor.isSpace c = true) (hseen : seen ≠ [])
    (hfuel : (itemChars sp depth items).length < fuel)
    (h : cur.rest = itemChars sp depth items ++ (closing ++ ']' :: rest)) :
    ∃ items', Reads (readItems fuel limit seen cur) (.array (seen.reverse ++ items')) rest ∧
      List.Forall₂ Same items items' := by
  have hends : EndsNumber (closing ++ ']' :: rest) :=
    endsNumber_gap hclosing (endsNumber_cons rest (Or.inr (Or.inl rfl)))
  induction items generalizing fuel seen cur with
  | nil =>
    obtain ⟨fuel, rfl⟩ := Nat.exists_eq_add_of_lt hfuel
    rw [itemChars, List.nil_append] at h
    have hfront := Cursor.rest_skipSpace h hclosing (by simp [Cursor.isSpace])
    refine ⟨[], ?_, .nil⟩
    rw [List.append_nil]
    exact readItems_close hfront
  | cons j items ih =>
    obtain ⟨fuel, rfl⟩ : ∃ fuel', fuel = fuel' + 1 := ⟨fuel - 1, by omega⟩
    obtain ⟨hj, hitems⟩ := List.forall_mem_cons.1 hitems
    simp only [itemChars, List.cons_append, List.append_assoc, List.length_cons,
      List.length_append] at h hfuel
    have hafter : EndsNumber (itemChars sp depth items ++ (closing ++ ']' :: rest)) :=
      endsNumber_itemChars hends items
    generalize htail : itemChars sp depth items ++ (closing ++ ']' :: rest) = tail at h hafter
    have hcomma := Cursor.rest_skipSpace_cons h (by decide)
    have hstarts := (hj.starts depth).append tail
    have hfront := Cursor.rest_skipSpace
      (cur.skipSpace.rest_after ',' (sp.gap depth ++ (chars sp depth j ++ tail))) (hsp.gap depth)
      hstarts.not_isSpace
    obtain ⟨j', ⟨cur', hread, hcur'⟩, hsame⟩ :=
      hj.reads (by omega : (chars sp depth j).length ≤ fuel) (List.forall_mem_nil _) hafter hfront
    obtain ⟨items', hrest, hforall⟩ := ih hitems (List.cons_ne_nil j' seen)
      (by omega : (itemChars sp depth items).length < fuel) (hcur'.trans htail.symm)
    refine ⟨j' :: items', ?_, .cons hsame hforall⟩
    rw [← hfront] at hstarts
    rw [readItems_next hseen hcomma hstarts hread]
    rw [List.reverse_cons, List.append_assoc] at hrest
    exact hrest

theorem startsTree_array (items : List Json) : StartsTree (chars sp depth (.array items)) := by
  cases items with
  | nil => exact ⟨'[', _, rfl, by decide⟩
  | cons j items => exact ⟨'[', _, rfl, by decide⟩

theorem readable_array (hsp : sp.Blank) {items : List Json}
    (hitems : ∀ j ∈ items, Readable sp limit j) (hlimit : 0 < limit) :
    Readable sp (limit + 1) (.array items) := by
  have hdeep : ¬limit + 1 ≤ 1 := by omega
  cases items with
  | nil =>
    refine .intro (fun _ => startsTree_array []) ?_
    intro fuel depth cur rest hfuel _ h
    obtain ⟨fuel, rfl⟩ : ∃ fuel', fuel = fuel' + 1 := ⟨fuel - 1, by
      rw [chars, List.length_cons, List.length_singleton] at hfuel
      omega⟩
    replace h : cur.skipSpace.rest = '[' :: ']' :: rest := h
    have hfront := Cursor.rest_skipSpace_cons (cur.skipSpace.rest_after '[' (']' :: rest))
      (by decide)
    refine ⟨.array [], ?_, .array .nil⟩
    rw [readValue, h]
    simp only [hdeep]
    exact readItems_close hfront
  | cons j items =>
    obtain ⟨hj, hitems⟩ := List.forall_mem_cons.1 hitems
    refine .intro (fun _ => startsTree_array (j :: items)) ?_
    intro fuel depth cur rest hfuel _ h
    simp only [chars, List.cons_append, List.append_assoc, List.length_cons,
      List.length_append, List.length_nil, List.nil_append] at h hfuel
    obtain ⟨fuel, rfl⟩ : ∃ fuel', fuel = fuel' + 1 := ⟨fuel - 1, by omega⟩
    have hafter : EndsNumber (itemChars sp (depth + 1) items ++ (sp.gap depth ++ ']' :: rest)) :=
      endsNumber_itemChars (endsNumber_gap (hsp.gap depth)
        (endsNumber_cons rest (Or.inr (Or.inl rfl)))) items
    generalize htail : itemChars sp (depth + 1) items ++ (sp.gap depth ++ ']' :: rest) = tail
      at h hafter
    have hpos := (hj.starts (depth + 1)).length_pos
    have hstarts := (hj.starts (depth + 1)).append tail
    have hfront := Cursor.rest_skipSpace (cur.skipSpace.rest_after '['
      (sp.gap (depth + 1) ++ (chars sp (depth + 1) j ++ tail))) (hsp.gap (depth + 1))
      hstarts.not_isSpace
    obtain ⟨j', ⟨cur', hread, hcur'⟩, hsame⟩ :=
      hj.reads (by omega : (chars sp (depth + 1) j).length ≤ fuel) (List.forall_mem_nil _) hafter
        hfront
    obtain ⟨items', hrest, hforall⟩ := readItems_itemChars hsp hitems (hsp.gap depth)
      (List.cons_ne_nil j' []) (by omega : (itemChars sp (depth + 1) items).length < fuel)
      (hcur'.trans htail.symm)
    refine ⟨.array (j' :: items'), ?_, .array (.cons hsame hforall)⟩
    rw [← hfront] at hstarts
    rw [readValue, h]
    simp only [hdeep]
    rw [if_false, Nat.add_sub_cancel, readItems_first hstarts hread]
    exact hrest

end Array

/-! ## Objects -/

section Object

variable {seen : OrderedMap Json} {key : String}

theorem readKey_quote (hfuel : (quote key).length ≤ fuel + 1)
    (h : cur.rest = quote key ++ ':' :: rest) : Reads (readKey fuel cur) key rest := by
  obtain ⟨tail, htail⟩ : ∃ tail, quote key ++ ':' :: rest = '"' :: tail := ⟨_, rfl⟩
  rw [htail] at h
  have hquote : '"' :: (cur.after '"' tail).rest = quote key ++ ':' :: rest := by
    rw [Cursor.rest_after, htail]
  obtain ⟨cur', hread, hcur'⟩ := readString_quote key hfuel hquote
  have hcolon := Cursor.rest_skipSpace_cons hcur' (by decide)
  refine ⟨cur'.skipSpace.after ':' rest, ?_, Cursor.rest_after _ _ _⟩
  rw [readKey, h]
  simp only [hread]
  rw [hcolon]
  rfl

/-- An entry is its key, a colon and its value, and the others follow. -/
theorem readEntry_append (seen : OrderedMap Json) (hsp : sp.Blank) (hj : Readable sp limit j)
    (hkey : (quote key).length ≤ fuel + 1) (hvalue : (chars sp depth j).length ≤ fuel)
    (hrest : EndsNumber rest)
    (h : cur.rest = quote key ++ (sp.colon ++ (chars sp depth j ++ rest))) :
    ∃ j' cur', Same j j' ∧ cur'.rest = rest ∧ readEntry (fuel + 1) limit seen cur =
      readEntries fuel limit (OrderedMap.put seen key j') cur' := by
  obtain ⟨blanks, hcolon, hblanks⟩ := hsp.colon
  rw [hcolon] at h
  obtain ⟨cur₁, hreadKey, hcur₁⟩ := readKey_quote hkey h
  obtain ⟨j', ⟨cur₂, hreadValue, hcur₂⟩, hsame⟩ := hj.reads hvalue hblanks hrest hcur₁
  refine ⟨j', cur₂, hsame, hcur₂, ?_⟩
  rw [readEntry, hreadKey]
  dsimp only
  rw [hreadValue]

/-- A closing brace ends an object. -/
theorem readEntries_close (h : cur.skipSpace.rest = '\x7d' :: rest) :
    Reads (readEntries (fuel + 1) limit seen cur) (.object seen) rest := by
  refine ⟨cur.skipSpace.after '\x7d' rest, ?_, Cursor.rest_after _ _ _⟩
  rw [readEntries, h]
  rfl

/-- The first entry of an object has no comma before it. -/
theorem readEntries_first (h : StartsTree cur.skipSpace.rest) :
    readEntries (fuel + 1) limit [] cur = readEntry fuel limit [] cur.skipSpace := by
  obtain ⟨c, tail, hfront, -, -, hclose⟩ := h
  rw [readEntries, hfront]
  split
  case h_1 hnil => cases hnil
  case h_2 heq => exact absurd (List.cons.inj heq).1 hclose
  case h_3 => rw [List.isEmpty_nil, if_pos rfl]

/-- Any other entry follows a comma. -/
theorem readEntries_next {tail : List Char} (hseen : seen ≠ [])
    (h : cur.skipSpace.rest = ',' :: tail)
    (hstarts : StartsTree (cur.skipSpace.after ',' tail).skipSpace.rest) :
    readEntries (fuel + 1) limit seen cur =
      readEntry fuel limit seen (cur.skipSpace.after ',' tail).skipSpace := by
  obtain ⟨c, tail', hfront, -, -, hclose⟩ := hstarts
  have hempty : seen.isEmpty = false := by simpa using hseen
  rw [readEntries, h]
  split
  case h_1 hnil => cases hnil
  case h_2 heq => exact absurd (List.cons.inj heq).1 (by decide)
  case h_3 heq =>
    obtain ⟨rfl, rfl⟩ := List.cons.inj heq
    rw [hempty, if_neg Bool.false_ne_true, if_pos rfl]
    dsimp only
    rw [hfront]
    split
    case h_1 hnil => cases hnil
    case h_2 heq => exact absurd (List.cons.inj heq).1 hclose
    case h_3 => rfl

theorem endsNumber_entryChars (hrest : EndsNumber rest) (entries : OrderedMap Json) :
    EndsNumber (entryChars sp depth entries ++ rest) := by
  cases entries with
  | nil => exact hrest
  | cons entry entries => exact endsNumber_cons _ (Or.inl rfl)

/-- The entries after the first are read up to the closing brace. Their keys are new, so that each
entry comes last. -/
theorem readEntries_entryChars (hsp : sp.Blank) {entries : OrderedMap Json}
    (hentries : ∀ entry ∈ entries, Readable sp limit entry.2) {closing : List Char}
    (hclosing : ∀ c ∈ closing, Cursor.isSpace c = true) (hseen : seen ≠ [])
    (hkeys : (OrderedMap.keys seen ++ OrderedMap.keys entries).Nodup)
    (hfuel : (entryChars sp depth entries).length < fuel)
    (h : cur.rest = entryChars sp depth entries ++ (closing ++ '\x7d' :: rest)) :
    ∃ entries', Reads (readEntries fuel limit seen cur) (.object (seen ++ entries')) rest ∧
      OrderedMap.keys entries = OrderedMap.keys entries' ∧
      List.Forall₂ Same (entries.map Prod.snd) (entries'.map Prod.snd) := by
  have hends : EndsNumber (closing ++ '\x7d' :: rest) :=
    endsNumber_gap hclosing (endsNumber_cons rest (Or.inr (Or.inr rfl)))
  induction entries generalizing fuel seen cur with
  | nil =>
    obtain ⟨fuel, rfl⟩ := Nat.exists_eq_add_of_lt hfuel
    rw [entryChars, List.nil_append] at h
    have hfront := Cursor.rest_skipSpace h hclosing (by simp [Cursor.isSpace])
    refine ⟨[], ?_, rfl, .nil⟩
    rw [List.append_nil]
    exact readEntries_close hfront
  | cons entry entries ih =>
    obtain ⟨key, j⟩ := entry
    obtain ⟨hj, hentries⟩ := List.forall_mem_cons.1 hentries
    have hquote := (startsTree_quote key).length_pos
    simp only [entryChars, List.cons_append, List.append_assoc, List.length_cons,
      List.length_append] at h hfuel
    obtain ⟨fuel, rfl⟩ : ∃ fuel', fuel = fuel' + 2 := ⟨fuel - 2, by omega⟩
    have hafter : EndsNumber (entryChars sp depth entries ++ (closing ++ '\x7d' :: rest)) :=
      endsNumber_entryChars hends entries
    generalize htail : entryChars sp depth entries ++ (closing ++ '\x7d' :: rest) = tail at h hafter
    have hcomma := Cursor.rest_skipSpace_cons h (by decide)
    have hstarts := (startsTree_quote key).append (sp.colon ++ (chars sp depth j ++ tail))
    have hfront := Cursor.rest_skipSpace (cur.skipSpace.rest_after ','
      (sp.gap depth ++ (quote key ++ (sp.colon ++ (chars sp depth j ++ tail))))) (hsp.gap depth)
      hstarts.not_isSpace
    obtain ⟨j', cur', hsame, hcur', hread⟩ := readEntry_append seen hsp hj
      (by omega : (quote key).length ≤ fuel + 1) (by omega : (chars sp depth j).length ≤ fuel)
      hafter hfront
    have hnew : OrderedMap.has seen key = false := by
      rw [← Bool.not_eq_true, OrderedMap.has_iff_mem_keys]
      exact fun hmem => (List.nodup_append.1 hkeys).2.2 key hmem key List.mem_cons_self rfl
    rw [OrderedMap.put_eq_concat hnew] at hread
    have hkeys' : (OrderedMap.keys (seen ++ [(key, j')]) ++ OrderedMap.keys entries).Nodup := by
      rw [OrderedMap.keys_append, List.append_assoc]
      exact hkeys
    obtain ⟨entries', hrest, hsameKeys, hforall⟩ := ih hentries
      (List.append_ne_nil_of_right_ne_nil seen (List.cons_ne_nil _ [])) hkeys'
      (by omega : (entryChars sp depth entries).length < fuel) (hcur'.trans htail.symm)
    refine ⟨(key, j') :: entries', ?_, congrArg (key :: ·) hsameKeys, .cons hsame hforall⟩
    rw [← hfront] at hstarts
    rw [readEntries_next hseen hcomma hstarts, hread]
    rw [List.append_assoc] at hrest
    exact hrest

theorem startsTree_object (entries : OrderedMap Json) :
    StartsTree (chars sp depth (.object entries)) := by
  cases entries with
  | nil => exact ⟨'\x7b', _, rfl, by decide⟩
  | cons entry entries => exact ⟨'\x7b', _, rfl, by decide⟩

theorem readable_object (hsp : sp.Blank) {entries : OrderedMap Json}
    (hkeys : (OrderedMap.keys entries).Nodup)
    (hentries : ∀ entry ∈ entries, Readable sp limit entry.2) (hlimit : 0 < limit) :
    Readable sp (limit + 1) (.object entries) := by
  have hdeep : ¬limit + 1 ≤ 1 := by omega
  cases entries with
  | nil =>
    refine .intro (fun _ => startsTree_object []) ?_
    intro fuel depth cur rest hfuel _ h
    obtain ⟨fuel, rfl⟩ : ∃ fuel', fuel = fuel' + 1 := ⟨fuel - 1, by
      rw [chars, List.length_cons, List.length_singleton] at hfuel
      omega⟩
    replace h : cur.skipSpace.rest = '\x7b' :: '\x7d' :: rest := h
    have hfront := Cursor.rest_skipSpace_cons (cur.skipSpace.rest_after '\x7b' ('\x7d' :: rest))
      (by decide)
    refine ⟨.object [], ?_, .object rfl .nil⟩
    rw [readValue, h]
    simp only [hdeep]
    exact readEntries_close hfront
  | cons entry entries =>
    obtain ⟨key, j⟩ := entry
    obtain ⟨hj, hentries⟩ := List.forall_mem_cons.1 hentries
    refine .intro (fun _ => startsTree_object ((key, j) :: entries)) ?_
    intro fuel depth cur rest hfuel _ h
    have hpos : 0 < (chars sp (depth + 1) j).length := (hj.starts (depth + 1)).length_pos
    have hquote := (startsTree_quote key).length_pos
    simp only [chars, List.cons_append, List.append_assoc, List.length_cons,
      List.length_append, List.length_nil, List.nil_append] at h hfuel
    obtain ⟨fuel, rfl⟩ : ∃ fuel', fuel = fuel' + 2 := ⟨fuel - 2, by omega⟩
    have hafter : EndsNumber
        (entryChars sp (depth + 1) entries ++ (sp.gap depth ++ '\x7d' :: rest)) :=
      endsNumber_entryChars (endsNumber_gap (hsp.gap depth)
        (endsNumber_cons rest (Or.inr (Or.inr rfl)))) entries
    generalize htail : entryChars sp (depth + 1) entries ++ (sp.gap depth ++ '\x7d' :: rest) = tail
      at h hafter
    have hstarts := (startsTree_quote key).append (sp.colon ++ (chars sp (depth + 1) j ++ tail))
    have hfront := Cursor.rest_skipSpace (cur.skipSpace.rest_after '\x7b'
      (sp.gap (depth + 1) ++ (quote key ++ (sp.colon ++ (chars sp (depth + 1) j ++ tail)))))
      (hsp.gap (depth + 1)) hstarts.not_isSpace
    obtain ⟨j', cur', hsame, hcur', hread⟩ := readEntry_append [] hsp hj
      (by omega : (quote key).length ≤ fuel + 1)
      (by omega : (chars sp (depth + 1) j).length ≤ fuel) hafter hfront
    obtain ⟨entries', hrest, hsameKeys, hforall⟩ := readEntries_entryChars hsp hentries
      (hsp.gap depth) (List.cons_ne_nil (key, j') []) hkeys
      (by omega : (entryChars sp (depth + 1) entries).length < fuel) (hcur'.trans htail.symm)
    refine ⟨.object ((key, j') :: entries'), ?_,
      .object (congrArg (key :: ·) hsameKeys) (.cons hsame hforall)⟩
    rw [← hfront] at hstarts
    rw [readValue, h]
    simp only [hdeep]
    rw [if_false, Nat.add_sub_cancel, readEntries_first hstarts, hread]
    exact hrest

end Object

/-! ## Texts -/

/-- A plain tree of a nesting below the limit is read wherever its text stands. -/
theorem readable_of_plain (hsp : sp.Blank) {levels : Nat} (h : Plain levels j) :
    ∀ {limit : Nat}, levels < limit → Readable sp limit j := by
  induction h with
  | null => exact fun _ => readable_null
  | bool b => exact fun _ => readable_bool b
  | number hn hi => exact fun _ => readable_number hn hi
  | string s => exact fun _ => readable_string s
  | array _ ih =>
    intro limit hlimit
    obtain ⟨limit, rfl⟩ := Nat.exists_eq_add_of_lt hlimit
    exact readable_array hsp (fun j hj => ih j hj (by omega)) (by omega)
  | object hkeys _ ih =>
    intro limit hlimit
    obtain ⟨limit, rfl⟩ := Nat.exists_eq_add_of_lt hlimit
    exact readable_object hsp hkeys (fun entry hentry => ih entry hentry (by omega)) (by omega)

/-- The text of a plain tree whose nesting the reader allows is read back as this tree. -/
theorem read_write (hsp : sp.Blank) {levels : Nat} (h : Plain levels j)
    (hlevels : levels < levelLimit) : ∃ j', read (write sp j) = .ok j' ∧ Same j j' := by
  have hstart : (Cursor.start (write sp j)).rest = chars sp 0 j := by
    rw [Cursor.start, write, String.toList_ofList]
  have hfront : (Cursor.start (write sp j)).rest = [] ++ (chars sp 0 j ++ []) := by
    rw [hstart, List.append_nil, List.nil_append]
  obtain ⟨j', ⟨cur, hread, hcur⟩, hsame⟩ := (readable_of_plain hsp h hlevels).reads
    (by omega : (chars sp 0 j).length ≤ 3 * (chars sp 0 j).length + 3) (List.forall_mem_nil _)
    (by intro c hc; cases hc) hfront
  refine ⟨j', ?_, hsame⟩
  have hend : cur.skipSpace.rest = [] :=
    Cursor.rest_skipSpace (hcur.trans (List.nil_append []).symm) (List.forall_mem_nil _)
      (by intro c hc; cases hc)
  unfold read
  dsimp only
  rw [hstart, hread]
  dsimp only
  rw [hend]

end Json

end ReactiveScript
