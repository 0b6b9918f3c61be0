import TupleBlob.Json.Parser
import TupleBlob.Proofs.Text.Scalars

/-! # JSON text read again

A double may not be read again as it was printed; everything else in JSON is. Main statement: JSON
without doubles is read again from its compact text, if it is nested no deeper than a text may be.
-/

namespace TupleBlob.Json

/-- JSON without doubles: nulls, truth values, whole numbers that a text can hold, strings, and
arrays and objects of these nested at most `depth` deep. -/
inductive Plain : (depth : Nat) → Json → Prop
  | null {depth} : Plain depth .null
  | bool {depth value} : Plain depth (.bool value)
  | int {depth} {n : Int} (low : -maxNegative ≤ n) (high : n ≤ maxSignificand) :
      Plain depth (.int n)
  | str {depth text} : Plain depth (.str text)
  | arr {depth items} (inside : ∀ item ∈ items, Plain depth item) :
      Plain (depth + 1) (.arr items)
  | obj {depth} {fields : List (String × Json)} (rising : fields.Pairwise (·.1 < ·.1))
      (inside : ∀ field ∈ fields, Plain depth field.2) : Plain (depth + 1) (.obj fields)

/-- What may follow an item of an array, a field of an object, or the whole text. -/
inductive Closes : List Char → Prop
  | ended : Closes []
  | comma {rest} : Closes (',' :: rest)
  | bracket {rest} : Closes (']' :: rest)
  | brace {rest} : Closes ('\x7d' :: rest)

variable {rest : List Char}

theorem scanWord_append (ended other : Defect) (word rest : List Char) :
    scanWord ended other word (word ++ rest) = .ok rest := by
  induction word with
  | nil => rfl
  | cons c word ih => simp only [List.cons_append, scanWord, if_true, ih]

/-! ## Numbers -/

theorem spanDigits_append {digits : List Char} (all : ∀ c ∈ digits, c.isDigit)
    (closes : Closes rest) : spanDigits (digits ++ rest) = (digits, rest) := by
  have opens : rest.takeWhile Char.isDigit = [] ∧ rest.dropWhile Char.isDigit = rest := by
    cases closes <;> exact ⟨rfl, rfl⟩
  rw [spanDigits, List.takeWhile_append_of_pos all, List.dropWhile_append_of_pos all, opens.1,
    opens.2, List.append_nil]

theorem le_ofDigitChars (cs : List Char) (n : Nat) : n ≤ Nat.ofDigitChars 10 cs n := by
  induction cs generalizing n with
  | nil => exact Nat.le_refl n
  | cons c cs ih =>
      rw [Nat.ofDigitChars_cons]
      exact Nat.le_trans (by omega) (ih _)

/-- Digits are all absorbed where the number that they make fits. -/
theorem absorb_eq {cs : List Char} {n : Nat}
    (fits : Nat.ofDigitChars 10 cs n ≤ maxSignificand) :
    absorb n cs = (Nat.ofDigitChars 10 cs n, []) := by
  induction cs generalizing n with
  | nil => rfl
  | cons c cs ih =>
      have same : n * 10 + (c.toNat - 0x30) = 10 * n + (c.toNat - '0'.toNat) := by
        rw [Nat.mul_comm]
        rfl
      rw [Nat.ofDigitChars_cons] at fits
      have smaller := Nat.le_trans (le_ofDigitChars cs _) fits
      rw [absorb, same, if_pos smaller, ih fits, Nat.ofDigitChars_cons]

theorem head_toDigits {n : Nat} (positive : n ≠ 0) :
    (Nat.toDigits 10 n).head? ≠ some '0' := by
  induction n using Nat.strongRecOn with
  | ind n ih =>
      by_cases small : n < 10
      · have digits : ∀ d < 10, d ≠ 0 → [Nat.digitChar d].head? ≠ some '0' := by decide
        rw [Nat.toDigits_of_lt_base small]
        exact digits n small positive
      · rw [Nat.toDigits_of_base_le (by decide) (by omega),
          List.head?_append_of_ne_nil _ Nat.toDigits_ne_nil]
        exact ih (n / 10) (by omega) (by omega)

theorem scanAfterWhole_nil (negative : Bool) (n : Nat) (closes : Closes rest) :
    scanAfterWhole negative n [] rest = ofWhole negative n rest := by
  cases closes <;> simp [scanAfterWhole]

theorem scanMagnitude_toDigits (negative : Bool) {n : Nat} (fits : n ≤ maxSignificand)
    (closes : Closes rest) :
    scanMagnitude negative (Nat.toDigits 10 n ++ rest) = ofWhole negative n rest := by
  have value : Nat.ofDigitChars 10 (Nat.toDigits 10 n) 0 = n := Nat.ofDigitChars_ten_toDigits
  have absorbed := @absorb_eq (Nat.toDigits 10 n) 0 (by rw [value]; exact fits)
  rw [scanMagnitude, spanDigits_append (fun _ => Numeral.isDigit_of_mem) closes]
  dsimp only
  split
  · rename_i empty
    exact absurd empty Nat.toDigits_ne_nil
  · rename_i c digits shape
    by_cases zero : n = 0
    · subst zero
      cases shape
    · have head := head_toDigits zero
      rw [shape] at head
      exact absurd rfl head
  · rw [absorbed, value]
    exact scanAfterWhole_nil negative n closes

/-! ## Strings -/

theorem fourDigits_eq {n : Nat} (control : n < 0x20) :
    ∃ a b c d, fourDigits n = [a, b, c, d] ∧ hexUnit? a b c d = some n := by
  have all : ∀ n < 0x20, hexUnit? '0' '0' (Nat.digitChar (n / 16)) (Nat.digitChar (n % 16)) =
      some n ∧ fourDigits n = ['0', '0', Nat.digitChar (n / 16), Nat.digitChar (n % 16)] := by
    decide
  exact ⟨_, _, _, _, (all n control).2, (all n control).1⟩

theorem scanEscape_fourDigits {n : Nat} (control : n < 0x20) (rest : List Char) :
    scanEscape ('u' :: fourDigits n ++ rest) = .ok (.ofNat n, rest) := by
  obtain ⟨a, b, c, d, digits, unit⟩ := fourDigits_eq control
  have low : isLowSurrogate n = false := by
    simp only [isLowSurrogate, Bool.and_eq_false_iff, decide_eq_false_iff_not]
    omega
  have high : isHighSurrogate n = false := by
    simp only [isHighSurrogate, Bool.and_eq_false_iff, decide_eq_false_iff_not]
    omega
  simp only [List.cons_append, digits, List.nil_append, scanEscape, if_true, scanUnit, unit, low,
    high, Bool.false_eq_true, if_false]

/-- One character is read from the characters that it is written as. -/
theorem scanString_escapeChar (fuel : Nat) (done : List Char) (c : Char) (rest : List Char) :
    scanString (fuel + 1) done (escapeChar c ++ rest) = scanString fuel (c :: done) rest := by
  by_cases quoted : c = '"' ∨ c = '\\'
  · rcases quoted with rfl | rfl <;> rfl
  by_cases lettered : c = '\x08' ∨ c = '\x0c' ∨ c = '\n' ∨ c = '\r' ∨ c = '\t'
  · rcases lettered with rfl | rfl | rfl | rfl | rfl <;> rfl
  simp only [not_or] at quoted lettered
  by_cases control : c < ' '
  · have small : c.toNat < 0x20 := control
    have escaped := scanEscape_fourDigits small rest
    simp only [List.cons_append] at escaped
    simp only [escapeChar, quoted, lettered, control, or_self, if_false, if_true,
      List.cons_append, List.nil_append, scanString, escaped, Char.ofNat_toNat]
    rfl
  · simp only [escapeChar, quoted, lettered, control, or_self, if_false, List.cons_append,
      List.nil_append, scanString]

theorem scanString_flatMap {fuel : Nat} {text : List Char} (enough : text.length < fuel)
    (done rest : List Char) :
    scanString fuel done (text.flatMap escapeChar ++ '"' :: rest) =
      .ok (String.ofList (done.reverse ++ text), rest) := by
  induction text generalizing fuel done with
  | nil =>
      cases fuel with
      | zero => cases enough
      | succ fuel => simp [scanString]
  | cons c text ih =>
      cases fuel with
      | zero => cases enough
      | succ fuel =>
          rw [List.flatMap_cons, List.append_assoc, scanString_escapeChar,
            ih (Nat.lt_of_succ_lt_succ enough), List.reverse_cons, List.append_assoc]
          rfl

theorem length_le_flatMap (text : List Char) : text.length ≤ (text.flatMap escapeChar).length := by
  induction text with
  | nil => exact Nat.le_refl 0
  | cons c text ih =>
      have some : 1 ≤ (escapeChar c).length := by
        simp only [escapeChar]
        repeat' split
        all_goals simp
      simp only [List.flatMap_cons, List.length_append, List.length_cons]
      omega

theorem printString_append (text : String) (rest : List Char) :
    printString text ++ rest = '"' :: (text.toList.flatMap escapeChar ++ '"' :: rest) := by
  simp [printString]

/-- A string is read after its opening quote. -/
theorem scanString_printed {text : String} {fuel : Nat}
    (enough : (printString text).length ≤ fuel) (rest : List Char) :
    scanString fuel [] (text.toList.flatMap escapeChar ++ '"' :: rest) = .ok (text, rest) := by
  have wide := length_le_flatMap text.toList
  simp only [printString, List.length_append, List.length_cons] at enough
  have fits : text.toList.length < fuel := by omega
  have scanned := scanString_flatMap fits [] rest
  rwa [List.reverse_nil, List.nil_append, String.ofList_toList] at scanned

/-! ## Texts with commas between them -/

section Commas

variable {α : Type} {shown : α → List Char}

theorem length_le_intercalate_of_mem {parts : List α} {part : α} (member : part ∈ parts) :
    (shown part).length ≤ ([','].intercalate (parts.map shown)).length := by
  induction parts with
  | nil => cases member
  | cons first parts ih =>
      cases parts with
      | nil =>
          cases List.mem_singleton.mp member
          simp
      | cons next parts =>
          simp only [List.map_cons, List.intercalate_cons_cons, List.length_append] at ih ⊢
          rcases List.mem_cons.mp member with rfl | later
          · omega
          · have inside := ih later
            omega

theorem length_le_intercalate (parts : List α) :
    parts.length ≤ ([','].intercalate (parts.map shown)).length + 1 := by
  induction parts with
  | nil => exact Nat.zero_le _
  | cons first parts ih =>
      cases parts with
      | nil => simp
      | cons next parts =>
          simp only [List.map_cons, List.intercalate_cons_cons, List.length_append,
            List.length_cons] at ih ⊢
          omega

end Commas

/-! ## Arrays -/

theorem skipBlanks_cons {c : Char} (visible : isBlank c = false) (rest : List Char) :
    skipBlanks (c :: rest) = c :: rest := by
  simp only [skipBlanks, List.dropWhile_cons, visible, Bool.false_eq_true, if_false]

theorem ne_of_isDigit {c d : Char} (digit : c.isDigit) (other : d.isDigit = false) : c ≠ d := by
  rintro rfl
  rw [digit] at other
  cases other

theorem isBlank_digit {c : Char} (digit : c.isDigit) : isBlank c = false := by
  simp [isBlank, ne_of_isDigit digit]

/-- A value opens with a character that is neither a blank nor the end of an array. -/
theorem Plain.exists_print_cons {depth : Nat} {json : Json} (plain : Plain depth json) :
    ∃ c rest, json.print = c :: rest ∧ isBlank c = false ∧ c ≠ ']' := by
  cases plain with
  | null | str | arr | obj => exact ⟨_, _, rfl, rfl, by decide⟩
  | @bool _ value => cases value <;> exact ⟨_, _, rfl, rfl, by decide⟩
  | @int _ n =>
      rw [Json.int, print, printNumber, Numeral.toList_toString]
      split
      · obtain ⟨c, digits, shape, digit⟩ := Numeral.exists_digit_cons n.toNat
        exact ⟨c, digits, shape, isBlank_digit digit, ne_of_isDigit digit rfl⟩
      · exact ⟨_, _, rfl, rfl, by decide⟩

theorem printItems_eq (items : List Json) :
    printItems items = [','].intercalate (items.map print) := by
  induction items with
  | nil => rfl
  | cons item items ih =>
      cases items with
      | nil => simp [printItems]
      | cons next items => simp [printItems, ih]

theorem length_print_le {items : List Json} {item : Json} (member : item ∈ items) :
    item.print.length ≤ (printItems items).length := by
  rw [printItems_eq]
  exact length_le_intercalate_of_mem member

theorem length_le_printItems (items : List Json) :
    items.length ≤ (printItems items).length + 1 := by
  rw [printItems_eq]
  exact length_le_intercalate items

/-- The items of an array open with a character that is neither a blank nor its end. -/
theorem exists_printItems_cons {items : List Json} {depth : Nat} (present : items ≠ [])
    (plain : ∀ item ∈ items, Plain depth item) (rest : List Char) :
    ∃ c tail, printItems items ++ rest = c :: tail ∧ isBlank c = false ∧ c ≠ ']' := by
  cases items with
  | nil => exact absurd rfl present
  | cons item items =>
      obtain ⟨c, tail, shape, visible, opens⟩ :=
        (plain item List.mem_cons_self).exists_print_cons
      cases items <;> simp [printItems, shape, visible, opens]

theorem scanItems_printItems {value : List Char → Scan Json} {items : List Json} {depth fuel : Nat}
    (present : items ≠ []) (plain : ∀ item ∈ items, Plain depth item) (enough : items.length ≤ fuel)
    (reads : ∀ item ∈ items, ∀ rest, Closes rest →
      value (item.print ++ rest) = .ok (item, rest)) (rest : List Char) :
    scanItems value fuel (printItems items ++ ']' :: rest) = .ok (items, rest) := by
  induction items generalizing fuel with
  | nil => exact absurd rfl present
  | cons item items ih =>
      obtain ⟨first, later⟩ := List.forall_mem_cons.mp reads
      cases fuel with
      | zero => cases enough
      | succ fuel =>
          cases items with
          | nil =>
              rw [printItems, scanItems, first _ .bracket]
              rfl
          | cons next items =>
              have plainNext := (List.forall_mem_cons.mp plain).2
              have others := ih (List.cons_ne_nil _ _) plainNext (Nat.le_of_succ_le_succ enough)
                later
              obtain ⟨c, tail, shape, visible, opens⟩ :=
                exists_printItems_cons (List.cons_ne_nil _ _) plainNext (']' :: rest)
              rw [printItems, List.append_assoc, List.cons_append, scanItems, first _ .comma]
              dsimp only
              rw [skipBlanks_cons rfl]
              simp only [Char.reduceEq, if_false, if_true]
              rw [shape] at others ⊢
              rw [skipBlanks_cons visible]
              split
              · rename_i shape
                cases shape
                exact absurd rfl opens
              · rw [others]

/-! ## Objects -/

def printField (field : String × Json) : List Char :=
  printString field.1 ++ ':' :: field.2.print

theorem printFields_singleton (field : String × Json) :
    printFields [field] = printField field := rfl

theorem printFields_cons_cons (field next : String × Json) (fields : List (String × Json)) :
    printFields (field :: next :: fields) =
      printField field ++ ',' :: printFields (next :: fields) := rfl

theorem printFields_eq (fields : List (String × Json)) :
    printFields fields = [','].intercalate (fields.map printField) := by
  induction fields with
  | nil => rfl
  | cons field fields ih =>
      cases fields with
      | nil => simp [printFields_singleton]
      | cons next fields => simp [printFields_cons_cons, ih]

theorem length_printField_le {fields : List (String × Json)} {field : String × Json}
    (member : field ∈ fields) : (printField field).length ≤ (printFields fields).length := by
  rw [printFields_eq]
  exact length_le_intercalate_of_mem member

theorem length_le_printFields (fields : List (String × Json)) :
    fields.length ≤ (printFields fields).length + 1 := by
  rw [printFields_eq]
  exact length_le_intercalate fields

theorem scanField_printField {value : List Char → Scan Json} {field : String × Json} {fuel : Nat}
    (enough : (printField field).length ≤ fuel)
    (reads : value (field.2.print ++ rest) = .ok (field.2, rest)) :
    scanField fuel value (printField field ++ rest) = .ok (field, rest) := by
  simp only [printField, List.length_append] at enough
  have key := @scanString_printed field.1 fuel (by omega) (':' :: (field.2.print ++ rest))
  have colon := scanWord_append .endInObject .noColon [':'] (field.2.print ++ rest)
  rw [printField, List.append_assoc, printString_append, scanField, skipBlanks_cons rfl]
  simp only [if_true, key, List.cons_append, List.nil_append] at colon ⊢
  rw [skipBlanks_cons rfl]
  simp only [colon, reads, Except.map]

theorem scanFields_printFields {scan : List Char → Scan (String × Json)}
    {fields : List (String × Json)} {fuel : Nat} (present : fields ≠ [])
    (enough : fields.length ≤ fuel)
    (reads : ∀ field ∈ fields, ∀ rest, Closes rest →
      scan (printField field ++ rest) = .ok (field, rest)) (rest : List Char) :
    scanFields scan fuel (printFields fields ++ '\x7d' :: rest) = .ok (fields, rest) := by
  induction fields generalizing fuel with
  | nil => exact absurd rfl present
  | cons field fields ih =>
      obtain ⟨first, later⟩ := List.forall_mem_cons.mp reads
      cases fuel with
      | zero => cases enough
      | succ fuel =>
          cases fields with
          | nil =>
              rw [printFields_singleton, scanFields, first _ .brace]
              rfl
          | cons next fields =>
              have others := ih (List.cons_ne_nil _ _) (Nat.le_of_succ_le_succ enough) later
              rw [printFields_cons_cons, List.append_assoc, List.cons_append, scanFields,
                first _ .comma]
              dsimp only
              rw [skipBlanks_cons rfl]
              simp only [Char.reduceEq, if_false, if_true, others]

/-- A field goes last where its key is the largest. -/
theorem insertField_above {key : String} {value : Json} {sorted : List (String × Json)}
    (below : ∀ field ∈ sorted, field.1 < key) :
    insertField key value sorted = sorted ++ [(key, value)] := by
  induction sorted with
  | nil => rfl
  | cons first sorted ih =>
      obtain ⟨less, later⟩ := List.forall_mem_cons.mp below
      rw [insertField, if_neg (lt_asymm less), if_neg (ne_of_gt less), ih later]
      rfl

theorem foldl_insertField {later sorted : List (String × Json)}
    (rising : (sorted ++ later).Pairwise (·.1 < ·.1)) :
    later.foldl (fun sorted (key, value) => insertField key value sorted) sorted =
      sorted ++ later := by
  induction later generalizing sorted with
  | nil => rw [List.foldl_nil, List.append_nil]
  | cons first later ih =>
      obtain ⟨key, value⟩ := first
      obtain ⟨-, -, below⟩ := List.pairwise_append.mp rising
      have last : insertField key value sorted = sorted ++ [(key, value)] :=
        insertField_above fun field member => below field member _ List.mem_cons_self
      have split : sorted ++ [(key, value)] ++ later = sorted ++ (key, value) :: later := by
        simp
      rw [← split] at rising ⊢
      rw [List.foldl_cons]
      dsimp only
      rw [last]
      exact ih rising

/-- Fields that stand in rising order are an object as they are. -/
theorem ofFields_eq {fields : List (String × Json)} (rising : fields.Pairwise (·.1 < ·.1)) :
    ofFields fields = .obj fields := by
  have gathered := @foldl_insertField fields [] rising
  rw [List.nil_append] at gathered
  rw [ofFields, gathered]

/-! ## Values -/

section Values

variable {fuel : Nat} {inner : Option (List Char → Scan Json)}

theorem scanValueWith_null (rest : List Char) :
    scanValueWith fuel inner (Json.null.print ++ rest) = .ok (.null, rest) := by
  have word := scanWord_append .endInValue .badWord "ull".toList rest
  have shape : Json.null.print ++ rest = 'n' :: ("ull".toList ++ rest) := rfl
  rw [shape, scanValueWith, skipBlanks_cons rfl]
  simp only [if_true, word, Except.map]

theorem scanValueWith_bool (value : Bool) (rest : List Char) :
    scanValueWith fuel inner ((Json.bool value).print ++ rest) = .ok (.bool value, rest) := by
  cases value with
  | false =>
      have word := scanWord_append .endInValue .badWord "alse".toList rest
      have shape : (Json.bool false).print ++ rest = 'f' :: ("alse".toList ++ rest) := rfl
      rw [shape, scanValueWith, skipBlanks_cons rfl]
      simp only [Char.reduceEq, if_false, if_true, word, Except.map]
  | true =>
      have word := scanWord_append .endInValue .badWord "rue".toList rest
      have shape : (Json.bool true).print ++ rest = 't' :: ("rue".toList ++ rest) := rfl
      rw [shape, scanValueWith, skipBlanks_cons rfl]
      simp only [Char.reduceEq, if_false, if_true, word, Except.map]

theorem scanValueWith_int {n : Int} (low : -maxNegative ≤ n) (high : n ≤ maxSignificand)
    (closes : Closes rest) :
    scanValueWith fuel inner ((Json.int n).print ++ rest) = .ok (.int n, rest) := by
  rw [Json.int, print, printNumber, Numeral.toList_toString]
  split
  · rename_i positive
    obtain ⟨c, digits, shape, digit⟩ := Numeral.exists_digit_cons n.toNat
    have scanned := scanMagnitude_toDigits false (Int.toNat_le.mpr high) closes
    have value : ofWhole false n.toNat rest = .ok (.int n, rest) := by
      simp only [ofWhole, Bool.not_false, if_true, Int.toNat_of_nonneg positive]
    rw [shape, List.cons_append, value] at scanned
    rw [shape, List.cons_append, scanValueWith, skipBlanks_cons (isBlank_digit digit)]
    simp [ne_of_isDigit digit, digit, scanned, Except.map]
  · rename_i negative
    have fits : (-n).toNat ≤ maxNegative := by omega
    have scanned := scanMagnitude_toDigits true
      (Nat.le_trans fits (by decide : maxNegative ≤ maxSignificand)) closes
    have value : ofWhole true (-n).toNat rest = .ok (.int n, rest) := by
      rw [ofWhole, if_neg (by simp), if_pos (by omega), Int.toNat_of_nonneg (by omega), Int.neg_neg]
    rw [value] at scanned
    rw [List.cons_append, scanValueWith, skipBlanks_cons rfl]
    simp only [Char.reduceEq, if_false, if_true, scanned, Except.map]

theorem scanValueWith_str {text : String} (enough : (Json.str text).print.length ≤ fuel)
    (rest : List Char) :
    scanValueWith fuel inner ((Json.str text).print ++ rest) = .ok (.str text, rest) := by
  rw [print] at enough
  rw [print, printString_append, scanValueWith, skipBlanks_cons rfl]
  simp [scanString_printed enough, Except.map]

theorem scanArray_printItems {value : List Char → Scan Json} {items : List Json} {depth : Nat}
    (plain : ∀ item ∈ items, Plain depth item) (enough : items.length ≤ fuel)
    (reads : ∀ item ∈ items, ∀ rest, Closes rest →
      value (item.print ++ rest) = .ok (item, rest)) (rest : List Char) :
    scanArray fuel value (printItems items ++ ']' :: rest) = .ok (.arr items, rest) := by
  cases items with
  | nil => rfl
  | cons item items =>
      have scanned := scanItems_printItems (List.cons_ne_nil _ _) plain enough reads rest
      obtain ⟨c, tail, shape, visible, opens⟩ :=
        exists_printItems_cons (List.cons_ne_nil _ _) plain (']' :: rest)
      rw [shape] at scanned ⊢
      rw [scanArray, skipBlanks_cons visible]
      simp only [opens, if_false, scanned, Except.map]

theorem scanObject_printFields {value : List Char → Scan Json} {fields : List (String × Json)}
    (rising : fields.Pairwise (·.1 < ·.1)) (enough : (printFields fields).length < fuel)
    (reads : ∀ field ∈ fields, ∀ rest, Closes rest →
      value (field.2.print ++ rest) = .ok (field.2, rest)) (rest : List Char) :
    scanObject fuel value (printFields fields ++ '\x7d' :: rest) = .ok (.obj fields, rest) := by
  cases fields with
  | nil => rfl
  | cons field fields =>
      have fewer := length_le_printFields (field :: fields)
      have readsFields (found) (member : found ∈ field :: fields) (rest) (closes : Closes rest) :
          scanField fuel value (printField found ++ rest) = .ok (found, rest) := by
        have smaller := length_printField_le member
        exact scanField_printField (by omega) (reads found member rest closes)
      have fits : (field :: fields).length ≤ fuel := by omega
      have scanned := scanFields_printFields (List.cons_ne_nil _ _) fits readsFields rest
      obtain ⟨tail, opened⟩ :
          ∃ tail, printFields (field :: fields) ++ '\x7d' :: rest = '"' :: tail := by
        cases fields <;> exact ⟨_, rfl⟩
      rw [opened] at scanned ⊢
      rw [scanObject, skipBlanks_cons rfl]
      simp only [Char.reduceEq, if_false, scanned, Except.map, ofFields_eq rising]

end Values

/-- A value is read from its text and nothing behind it, with enough fuel for each of its strings
and arrays. -/
theorem scanValue_print {depth : Nat} {json : Json} (plain : Plain depth json) {fuel : Nat}
    (enough : json.print.length ≤ fuel) (closes : Closes rest) :
    scanValue fuel depth (json.print ++ rest) = .ok (json, rest) := by
  induction plain generalizing rest with
  | @null depth => cases depth <;> exact scanValueWith_null rest
  | @bool depth value => cases depth <;> exact scanValueWith_bool value rest
  | @int depth _ low high => cases depth <;> exact scanValueWith_int low high closes
  | @str depth => cases depth <;> exact scanValueWith_str enough rest
  | @arr depth items inside ih =>
      have fewer := length_le_printItems items
      simp only [print, List.length_append, List.length_cons] at enough
      have fits : items.length ≤ fuel := by omega
      have reads (item) (member : item ∈ items) (rest) (closes : Closes rest) :
          scanValue fuel depth (item.print ++ rest) = .ok (item, rest) := by
        have smaller := length_print_le member
        exact ih item member (by omega) closes
      have scanned := scanArray_printItems inside fits reads rest
      have shape : (Json.arr items).print ++ rest = '[' :: (printItems items ++ ']' :: rest) := by
        simp [print]
      rw [shape, scanValue, scanValueWith, skipBlanks_cons rfl]
      simp [scanned]
  | @obj depth fields rising inside ih =>
      simp only [print, List.length_append, List.length_cons] at enough
      have reads (field) (member : field ∈ fields) (rest) (closes : Closes rest) :
          scanValue fuel depth (field.2.print ++ rest) = .ok (field.2, rest) := by
        have smaller := length_printField_le member
        simp only [printField, List.length_append, List.length_cons] at smaller
        exact ih field member (by omega) closes
      have fits : (printFields fields).length < fuel := by omega
      have scanned := scanObject_printFields rising fits reads rest
      have shape : (Json.obj fields).print ++ rest =
          '\x7b' :: (printFields fields ++ '\x7d' :: rest) := by
        simp [print]
      rw [shape, scanValue, scanValueWith, skipBlanks_cons rfl]
      simp [scanned]

/-- JSON is read again from its compact text. -/
theorem parse_compact {json : Json} (plain : Plain maxNesting json) :
    parse json.compact = .ok json := by
  have scanned := scanValue_print plain (Nat.le_succ _) .ended
  rw [List.append_nil] at scanned
  simp only [parse, parseNested, compact, String.toList_ofList, scanned]
  rfl

end TupleBlob.Json
