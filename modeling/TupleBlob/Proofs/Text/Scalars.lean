import TupleBlob.Proofs.Text.Utf8
import TupleBlob.Scalar

/-! # Scalars printed and read again

Main statement: the text of a scalar value is read as that value, whatever its type.
-/

namespace TupleBlob

/-! ## Hexadecimal -/

namespace Hex

theorem encodeChar_digit {n : Nat} (h : n < 16) :
    Utf8.encodeChar (digit n) = [.ofNat (digit n).toNat] := by
  revert n
  decide

theorem encodeChars_encodeByte (byte : UInt8) :
    Utf8.encodeChars (encodeByte byte) =
      [.ofNat (digit (byte.toNat / 16)).toNat, .ofNat (digit (byte.toNat % 16)).toNat] := by
  have small := byte.toNat_lt
  simp only [encodeByte, Utf8.encodeChars, List.flatMap_cons, List.flatMap_nil,
    encodeChar_digit (show byte.toNat / 16 < 16 by omega),
    encodeChar_digit (show byte.toNat % 16 < 16 by omega), List.cons_append, List.nil_append]

theorem encodeChars_encodeBytes_cons (byte : UInt8) (bytes : Bytes) :
    Utf8.encodeChars (encodeBytes (byte :: bytes)) =
      .ofNat (digit (byte.toNat / 16)).toNat :: .ofNat (digit (byte.toNat % 16)).toNat ::
        Utf8.encodeChars (encodeBytes bytes) := by
  rw [encodeBytes, List.flatMap_cons, Utf8.encodeChars, List.flatMap_append]
  exact congrArg (· ++ _) (encodeChars_encodeByte byte)

theorem decodePairs_encodeBytes (index : Nat) (bytes : Bytes) :
    decodePairs index (Utf8.encodeChars (encodeBytes bytes)) = .ok bytes := by
  induction bytes generalizing index with
  | nil => rfl
  | cons byte bytes ih =>
      have small := byte.toNat_lt
      have whole : byte.toNat / 16 * 16 + byte.toNat % 16 = byte.toNat := by omega
      simp only [encodeChars_encodeBytes_cons, decodePairs,
        value?_digit (show byte.toNat / 16 < 16 by omega),
        value?_digit (show byte.toNat % 16 < 16 by omega), ih, Except.map, whole,
        UInt8.ofNat_toNat]

theorem even_length_encodeBytes (bytes : Bytes) :
    (Utf8.encodeChars (encodeBytes bytes)).length % 2 = 0 := by
  induction bytes with
  | nil => rfl
  | cons byte bytes ih =>
      simp only [encodeChars_encodeBytes_cons, List.length_cons]
      omega

theorem decode_encode (bytes : Bytes) : decode (encode bytes) = .ok bytes := by
  have even := even_length_encodeBytes bytes
  simp only [decode, encode, Utf8.encode, String.toList_ofList, even, decodePairs_encodeBytes]
  rfl

end Hex

/-! ## Numerals -/

namespace Numeral

/-- The value of a run of digits with the given sign. -/
def signed (negative : Bool) (n : Nat) : Int :=
  if negative then -n else n

theorem readDigits_append (negative : Bool) (sum : Word) (front : List Char) (c : Char) :
    readDigits negative sum (front ++ [c]) =
      (readDigits negative sum front).bind fun sum => readDigits negative sum [c] := by
  induction front generalizing sum with
  | nil => rfl
  | cons first front ih =>
      simp only [List.cons_append, readDigits]
      cases digit? first with
      | none => rfl
      | some d =>
          dsimp only
          split
          · rfl
          · exact ih _

theorem digit?_digitChar {d : Nat} (small : d < 10) : digit? (Nat.digitChar d) = some d := by
  simp only [digit?, Nat.isDigit_digitChar, small, decide_true, if_true,
    Nat.toNat_digitChar_of_lt_ten small]
  congr
  omega

/-- One more digit makes ten times the number and the digit. -/
theorem readDigits_digitChar {negative : Bool} {sum word : Word} {d : Nat} (small : d < 10)
    (value : word.toInt = sum.toInt * 10 + signed negative d) :
    readDigits negative sum [Nat.digitChar d] = .ok word := by
  have next : Word.ofInt (sum.toInt * 10 + if negative then -(d : Int) else d) = .ok word := by
    rw [← Word.ofInt_toInt word, value, signed]
  simp only [readDigits, digit?_digitChar small, next]

/-- Without its last digit the value of a word is nearer to zero, hence the value of a word. -/
theorem exists_signed_div_ten {negative : Bool} {n : Nat} {word : Word}
    (value : word.toInt = signed negative n) :
    ∃ sum : Word, sum.toInt = signed negative (n / 10) := by
  have lower : -2147483648 ≤ word.toInt := word.le_toInt
  have upper : word.toInt ≤ 2147483647 := word.toInt_le
  refine ⟨Int32.ofInt (signed negative (n / 10)), Int32.toInt_ofInt_of_le ?_ ?_⟩
  · rw [value] at lower
    cases negative <;> simp only [signed, Bool.false_eq_true, if_true, if_false] at lower ⊢ <;>
      omega
  · rw [value] at upper
    cases negative <;> simp only [signed, Bool.false_eq_true, if_true, if_false] at upper ⊢ <;>
      omega

/-- The induction follows the digits from the last one to the first. -/
theorem readDigits_toDigits {negative : Bool} {n : Nat} {word : Word}
    (value : word.toInt = signed negative n) :
    readDigits negative 0 (Nat.toDigits 10 n) = .ok word := by
  induction n using Nat.strongRecOn generalizing word with
  | ind n ih =>
      by_cases small : n < 10
      · rw [Nat.toDigits_of_lt_base small]
        apply readDigits_digitChar small
        simpa using value
      · obtain ⟨sum, prefixValue⟩ := exists_signed_div_ten value
        rw [Nat.toDigits_of_base_le (by decide) (by omega), readDigits_append,
          ih (n / 10) (by omega) prefixValue, Except.bind]
        apply readDigits_digitChar (Nat.mod_lt n (by decide))
        rw [value, prefixValue]
        cases negative <;> simp only [signed, Bool.false_eq_true, if_true, if_false] <;> omega

theorem digit_not_blank {c : Char} (h : c.isDigit) : Text.isBlank c = false := by
  simp only [Char.isDigit, Bool.and_eq_true, decide_eq_true_eq, UInt32.le_iff_toNat_le] at h
  simp only [Text.isBlank, Text.blankRanges, List.any_cons, List.any_nil, Char.toNat,
    Bool.or_false, Bool.or_eq_false_iff, Bool.and_eq_false_iff, decide_eq_false_iff_not]
  have low : 48 ≤ c.val.toNat := h.1
  have high : c.val.toNat ≤ 57 := h.2
  omega

theorem trim_eq_self {text : List Char} (clear : ∀ c ∈ text, Text.isBlank c = false) :
    Text.trim text = text := by
  have fixed {text : List Char} (clear : ∀ c ∈ text, Text.isBlank c = false) :
      text.dropWhile Text.isBlank = text := by
    cases text with
    | nil => rfl
    | cons c text => simp [clear c List.mem_cons_self]
  rw [Text.trim, fixed clear, fixed (by simpa using clear), List.reverse_reverse]

theorem isDigit_of_mem {n : Nat} {c : Char} (member : c ∈ Nat.toDigits 10 n) : c.isDigit :=
  Nat.isDigit_of_mem_toDigits (by decide) (by decide) member

theorem exists_digit_cons (n : Nat) :
    ∃ c digits, Nat.toDigits 10 n = c :: digits ∧ c.isDigit := by
  cases shape : Nat.toDigits 10 n with
  | nil => exact absurd shape Nat.toDigits_ne_nil
  | cons c digits =>
      have member : c ∈ Nat.toDigits 10 n := by
        rw [shape]
        exact List.mem_cons_self
      exact ⟨c, digits, rfl, isDigit_of_mem member⟩

theorem digits_not_blank (n : Nat) : ∀ c ∈ Nat.toDigits 10 n, Text.isBlank c = false :=
  fun _ member => digit_not_blank (isDigit_of_mem member)

/-- Digits without a sign are read as they are. -/
theorem read_toDigits (n : Nat) :
    read (Nat.toDigits 10 n) = readDigits false 0 (Nat.toDigits 10 n) := by
  obtain ⟨c, digits, shape, digit⟩ := exists_digit_cons n
  have unsigned : ¬(c = '-' ∨ c = '+') := by
    rintro (rfl | rfl) <;> cases digit
  rw [shape, read, if_neg unsigned]

theorem read_negative_toDigits (n : Nat) :
    read ('-' :: Nat.toDigits 10 n) = readDigits true 0 (Nat.toDigits 10 n) := by
  have some : (Nat.toDigits 10 n).isEmpty = false := by
    rw [List.isEmpty_eq_false_iff]
    exact Nat.toDigits_ne_nil
  simp [read, some]

theorem toList_toString (n : Int) :
    (toString n).toList =
      if 0 ≤ n then Nat.toDigits 10 n.toNat else '-' :: Nat.toDigits 10 (-n).toNat := by
  rw [Int.toString_eq_repr, Int.repr_eq_if]
  split
  · exact Nat.toList_repr
  · rw [String.toList_append, Nat.toList_repr]
    rfl

theorem ofText_toText (word : Word) : ofText (toText word) = .ok word := by
  rw [ofText, toText, toList_toString]
  by_cases positive : 0 ≤ word.toInt
  · rw [if_pos positive, trim_eq_self (digits_not_blank _), read_toDigits]
    apply readDigits_toDigits
    simp only [signed, Bool.false_eq_true, if_false]
    omega
  · have clear : ∀ c ∈ '-' :: Nat.toDigits 10 (-word.toInt).toNat, Text.isBlank c = false := by
      intro c hc
      rcases List.mem_cons.mp hc with rfl | digit
      · rfl
      · exact digits_not_blank _ c digit
    rw [if_neg positive, trim_eq_self clear, read_negative_toDigits]
    apply readDigits_toDigits
    simp only [signed, if_true]
    omega

end Numeral

/-! ## All scalars -/

theorem toBytes_of_wordOf {bytes : Bytes} {word : Word} (h : wordOf bytes = .ok word) :
    word.toBytes = bytes := by
  match bytes with
  | [a, b, c, d] =>
      cases h
      exact Word.toBytes_ofBytes a b c d
  | [] | [_] | [_, _] | [_, _, _] | _ :: _ :: _ :: _ :: _ :: _ => cases h

theorem encode_of_textOf {bytes : Bytes} {text : String} (h : textOf bytes = .ok text) :
    Utf8.encode text = bytes :=
  Utf8.encode_of_decode (mapError_eq_ok_iff.mp h)

/-- The text of a scalar value stands for that value. -/
theorem Scalar.ofText_toText {s : Scalar} {bytes : Bytes} {text : String}
    (h : s.toText bytes = .ok text) : s.ofText text = .ok bytes := by
  cases s with
  | int32 =>
      obtain ⟨word, read, rfl⟩ := map_eq_ok_iff.mp h
      rw [Scalar.ofText, Numeral.ofText_toText, ← toBytes_of_wordOf read]
      rfl
  | utf8 => exact congrArg Except.ok (encode_of_textOf h)
  | ascii =>
      obtain ⟨checked, ascii, read⟩ := bind_eq_ok_iff.mp h
      have same : checked = bytes := by
        simp only [asciiOf] at ascii
        split at ascii <;> cases ascii
        rfl
      rw [Scalar.ofText, encode_of_textOf read, same]
      exact same ▸ ascii
  | bytes | probe =>
      cases h
      exact mapError_eq_ok_iff.mpr (Hex.decode_encode bytes)

end TupleBlob
