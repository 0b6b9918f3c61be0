import TupleBlob.Proofs.Text.Scalars

/-! # Scalars as JSON and back

Main statements: a value of a scalar type has a text and a JSON form, and only values have either;
the JSON form is no null and is read as that value, and whatever JSON is read as bytes is read as a
value of the type.
-/

namespace TupleBlob

theorem textOf_encode (text : String) : textOf (Utf8.encode text) = .ok text := by
  rw [textOf, Utf8.decode_encode]
  rfl

theorem exists_textOf_of_isAscii {bytes : Bytes} (h : bytes.isAscii) :
    ∃ text, textOf bytes = .ok text := by
  obtain ⟨chars, decoded⟩ := Utf8.decodeFrom_of_isAscii h 0
  refine ⟨String.ofList chars, ?_⟩
  simp only [textOf, Utf8.decode, decoded, Except.map, Except.mapError]

theorem asciiOf_eq_ok_iff {bytes checked : Bytes} :
    asciiOf bytes = .ok checked ↔ bytes.isAscii ∧ bytes = checked := by
  simp only [asciiOf]
  split
  · rename_i ascii
    simp [ascii]
  · rename_i ascii
    simp [ascii]

theorem wordOf_toBytes (word : Word) : wordOf word.toBytes = .ok word := by
  obtain ⟨a, b, c, d, bytes, same⟩ := Word.ofBytes_toBytes word
  rw [bytes, wordOf, same]

/-- The bytes of JSON text are the text's own. -/
theorem bytesOfJsonText_eq_ok_iff {json : Json} {bytes : Bytes} :
    bytesOfJsonText json = .ok bytes ↔ ∃ text, json = .str text ∧ Utf8.encode text = bytes := by
  cases json <;> simp [bytesOfJsonText]

namespace Scalar

variable {s : Scalar} {bytes : Bytes} {json : Json}

theorem exists_toText (valid : s.validate bytes = .ok ()) : ∃ text, s.toText bytes = .ok text := by
  cases s with
  | int32 =>
      obtain ⟨word, read, -⟩ := map_eq_ok_iff.mp valid
      exact ⟨_, map_eq_ok_iff.mpr ⟨word, read, rfl⟩⟩
  | utf8 =>
      obtain ⟨text, read, -⟩ := map_eq_ok_iff.mp valid
      exact ⟨text, read⟩
  | ascii =>
      obtain ⟨checked, ascii, -⟩ := map_eq_ok_iff.mp valid
      obtain ⟨text, read⟩ := exists_textOf_of_isAscii (asciiOf_eq_ok_iff.mp ascii).1
      obtain rfl := (asciiOf_eq_ok_iff.mp ascii).2
      exact ⟨text, bind_eq_ok_iff.mpr ⟨bytes, ascii, read⟩⟩
  | bytes | probe => exact ⟨_, rfl⟩

theorem exists_toJson (valid : s.validate bytes = .ok ()) : ∃ json, s.toJson bytes = .ok json := by
  obtain ⟨text, printed⟩ := exists_toText valid
  cases s with
  | int32 =>
      obtain ⟨word, read, -⟩ := map_eq_ok_iff.mp printed
      exact ⟨_, map_eq_ok_iff.mpr ⟨word, read, rfl⟩⟩
  | utf8 | ascii => exact ⟨_, map_eq_ok_iff.mpr ⟨text, printed, rfl⟩⟩
  | bytes | probe => exact ⟨_, rfl⟩

theorem toJson_ne_null (shown : s.toJson bytes = .ok json) : json ≠ .null := by
  rintro rfl
  cases s with
  | int32 | utf8 | ascii =>
      obtain ⟨_, -, same⟩ := map_eq_ok_iff.mp shown
      cases same
  | bytes | probe => cases shown

theorem toInt_le_maxSigned (word : Word) : word.toInt ≤ maxSigned := by
  have upper : word.toInt ≤ 2147483647 := word.toInt_le
  simp only [maxSigned]
  omega

theorem ofJson_toJson (shown : s.toJson bytes = .ok json) : s.ofJson json = .ok bytes := by
  cases s with
  | int32 =>
      obtain ⟨word, read, rfl⟩ := map_eq_ok_iff.mp shown
      simp only [ofJson, Json.int, if_pos (toInt_le_maxSigned word), Word.ofInt_toInt,
        Except.mapError, Except.map, toBytes_of_wordOf read]
  | utf8 =>
      obtain ⟨text, read, rfl⟩ := map_eq_ok_iff.mp shown
      exact congrArg Except.ok (encode_of_textOf read)
  | ascii =>
      obtain ⟨text, read, rfl⟩ := map_eq_ok_iff.mp shown
      obtain ⟨checked, ascii, read⟩ := bind_eq_ok_iff.mp read
      obtain rfl := (asciiOf_eq_ok_iff.mp ascii).2
      rw [ofJson, bytesOfJsonText, encode_of_textOf read]
      exact ascii
  | bytes =>
      cases shown
      have marked : ("0x" ++ Hex.encode bytes).toList =
          '0' :: 'x' :: (Hex.encode bytes).toList := by
        rw [String.toList_append]
        rfl
      simp only [ofJson, marked, String.ofList_toList]
      exact mapError_eq_ok_iff.mpr (Hex.decode_encode bytes)
  | probe =>
      cases shown
      exact mapError_eq_ok_iff.mpr (Hex.decode_encode bytes)

theorem validate_of_ofText {text : String} (read : s.ofText text = .ok bytes) :
    s.validate bytes = .ok () := by
  cases s with
  | int32 =>
      obtain ⟨word, -, rfl⟩ := map_eq_ok_iff.mp read
      rw [validate, wordOf_toBytes]
      rfl
  | utf8 =>
      cases read
      rw [validate, textOf_encode]
      rfl
  | ascii =>
      obtain ⟨ascii, rfl⟩ := asciiOf_eq_ok_iff.mp read
      rw [validate, asciiOf, if_pos ascii]
      rfl
  | bytes | probe => rfl

theorem validate_of_ofJson (read : s.ofJson json = .ok bytes) : s.validate bytes = .ok () := by
  cases s with
  | int32 =>
      simp only [ofJson] at read
      split at read
      · split at read
        · obtain ⟨word, -, rfl⟩ := map_eq_ok_iff.mp read
          rw [validate, wordOf_toBytes]
          rfl
        · cases read
      · exact validate_of_ofText read
      · cases read
  | utf8 =>
      obtain ⟨text, -, rfl⟩ := bytesOfJsonText_eq_ok_iff.mp read
      rw [validate, textOf_encode]
      rfl
  | ascii =>
      obtain ⟨found, -, checked⟩ := bind_eq_ok_iff.mp read
      obtain ⟨ascii, rfl⟩ := asciiOf_eq_ok_iff.mp checked
      rw [validate, asciiOf, if_pos ascii]
      rfl
  | bytes | probe => rfl

theorem validate_of_toText {text : String} (shown : s.toText bytes = .ok text) :
    s.validate bytes = .ok () :=
  validate_of_ofText (ofText_toText shown)

theorem validate_of_toJson (shown : s.toJson bytes = .ok json) : s.validate bytes = .ok () :=
  validate_of_ofJson (ofJson_toJson shown)

end Scalar

end TupleBlob
