import Mathlib
import TupleBlob.Proofs.Outcome
import TupleBlob.Utf8

/-! # UTF-8 read and written

Main statements: bytes that are decoded are the encoding of what they are decoded to, every text is
decoded from its encoding, and ASCII is always decoded.
-/

namespace TupleBlob.Utf8

theorem mayFollow_bounds {a b : UInt8} (h : mayFollow a b) :
    0x80 ≤ b.toNat ∧ b.toNat ≤ 0xBF ∧ (a.toNat = 0xE0 → 0xA0 ≤ b.toNat) ∧
      (a.toNat = 0xED → b.toNat ≤ 0x9F) ∧ (a.toNat = 0xF0 → 0x90 ≤ b.toNat) ∧
      (a.toNat = 0xF4 → b.toNat ≤ 0x8F) := by
  simp only [mayFollow, isContinuation, ← UInt8.toNat_inj, UInt8.le_iff_toNat_le,
    UInt8.reduceToNat] at h
  grind

theorem isContinuation_bounds {b : UInt8} (h : isContinuation b) :
    0x80 ≤ b.toNat ∧ b.toNat ≤ 0xBF := by
  simpa [isContinuation, UInt8.le_iff_toNat_le] using h

theorem encodeChar_ofOne {a : UInt8} (high : a < 0x80) : encodeChar (.ofNat a.toNat) = [a] := by
  simp only [UInt8.lt_iff_toNat_lt, UInt8.reduceToNat] at high
  have valid : a.toNat.isValidChar := by
    simp only [Nat.isValidChar]
    omega
  simp only [encodeChar, Char.toNat_ofNat, if_pos valid, if_pos high, UInt8.ofNat_toNat]

theorem encodeChar_ofTwo {a b : UInt8} (low : ¬a < 0xC2) (high : a < 0xE0)
    (hb : mayFollow a b) : encodeChar (ofTwo a b) = [a, b] := by
  simp only [UInt8.lt_iff_toNat_lt, UInt8.reduceToNat] at low high
  have hb := mayFollow_bounds hb
  have valid : (a.toNat % 0x20 * 0x40 + b.toNat % 0x40).isValidChar := by
    simp only [Nat.isValidChar]
    omega
  simp only [encodeChar, ofTwo, Char.toNat_ofNat, if_pos valid]
  rw [if_neg (by omega), if_pos (by omega)]
  simp only [List.cons.injEq, ← UInt8.toNat_inj, UInt8.toNat_ofNat', and_true]
  omega

theorem encodeChar_ofThree {a b c : UInt8} (low : ¬a < 0xE0) (high : a < 0xF0)
    (hb : mayFollow a b) (hc : isContinuation c) : encodeChar (ofThree a b c) = [a, b, c] := by
  simp only [UInt8.lt_iff_toNat_lt, UInt8.reduceToNat] at low high
  have hb := mayFollow_bounds hb
  have hc := isContinuation_bounds hc
  have valid : ((a.toNat % 0x10 * 0x40 + b.toNat % 0x40) * 0x40 + c.toNat % 0x40).isValidChar := by
    simp only [Nat.isValidChar]
    omega
  simp only [encodeChar, ofThree, Char.toNat_ofNat, if_pos valid]
  rw [if_neg (by omega), if_neg (by omega), if_pos (by omega)]
  simp only [List.cons.injEq, ← UInt8.toNat_inj, UInt8.toNat_ofNat', and_true]
  omega

theorem encodeChar_ofFour {a b c d : UInt8} (low : ¬a < 0xF0) (high : ¬0xF4 < a)
    (hb : mayFollow a b) (hc : isContinuation c) (hd : isContinuation d) :
    encodeChar (ofFour a b c d) = [a, b, c, d] := by
  simp only [UInt8.lt_iff_toNat_lt, UInt8.reduceToNat] at low high
  have hb := mayFollow_bounds hb
  have hc := isContinuation_bounds hc
  have hd := isContinuation_bounds hd
  have valid : (((a.toNat % 0x8 * 0x40 + b.toNat % 0x40) * 0x40 + c.toNat % 0x40) * 0x40
      + d.toNat % 0x40).isValidChar := by
    simp only [Nat.isValidChar]
    omega
  simp only [encodeChar, ofFour, Char.toNat_ofNat, if_pos valid]
  rw [if_neg (by omega), if_neg (by omega), if_neg (by omega)]
  simp only [List.cons.injEq, ← UInt8.toNat_inj, UInt8.toNat_ofNat', and_true]
  omega

theorem encodeChars_cons (c : Char) (chars : List Char) :
    encodeChars (c :: chars) = encodeChar c ++ encodeChars chars := List.flatMap_cons

/-- Decoding has one case for each length of a sequence; the others are faults. -/
theorem encodeChars_of_decodeFrom {index : Nat} {bytes : Bytes} {chars : List Char}
    (h : decodeFrom index bytes = .ok chars) : encodeChars chars = bytes := by
  fun_induction decodeFrom index bytes generalizing chars with
  | case1 =>
      cases h
      rfl
  | case2 index a rest one ih =>
      obtain ⟨others, decoded, rfl⟩ := map_eq_ok_iff.mp h
      rw [encodeChars_cons, encodeChar_ofOne one, ih decoded]
      rfl
  | case6 index a _ range b rest follows two ih =>
      simp only [Bool.or_eq_true, decide_eq_true_eq, not_or, Bool.not_eq_true'] at range follows
      obtain ⟨others, decoded, rfl⟩ := map_eq_ok_iff.mp h
      rw [encodeChars_cons, encodeChar_ofTwo range.1 two (by simpa using follows), ih decoded]
      rfl
  | case9 index a _ range b follows notTwo c rest tail three ih =>
      simp only [Bool.not_eq_true', Bool.not_eq_false] at follows tail
      obtain ⟨others, decoded, rfl⟩ := map_eq_ok_iff.mp h
      rw [encodeChars_cons, encodeChar_ofThree notTwo three follows tail, ih decoded]
      rfl
  | case12 index a _ range b follows notTwo c tail notThree d rest last ih =>
      simp only [Bool.or_eq_true, decide_eq_true_eq, not_or, Bool.not_eq_true',
        Bool.not_eq_false] at range follows tail last
      obtain ⟨others, decoded, rfl⟩ := map_eq_ok_iff.mp h
      rw [encodeChars_cons, encodeChar_ofFour notThree range.2 follows tail last, ih decoded]
      rfl
  | _ => cases h

theorem encode_of_decode {bytes : Bytes} {text : String} (h : decode bytes = .ok text) :
    encode text = bytes := by
  obtain ⟨chars, decoded, rfl⟩ := map_eq_ok_iff.mp h
  rw [encode, String.toList_ofList, encodeChars_of_decodeFrom decoded]

theorem decodeFrom_of_isAscii {bytes : Bytes} (h : bytes.isAscii) (index : Nat) :
    ∃ chars, decodeFrom index bytes = .ok chars := by
  induction bytes generalizing index with
  | nil => exact ⟨[], rfl⟩
  | cons byte bytes ih =>
      simp only [Bytes.isAscii, List.all_cons, Bool.and_eq_true, decide_eq_true_eq] at h
      obtain ⟨chars, decoded⟩ := ih h.2 (index + 1)
      refine ⟨.ofNat byte.toNat :: chars, ?_⟩
      rw [decodeFrom.eq_def]
      simp only [h.1, if_true, decoded, Except.map]

/-! ## Encoding and decoding again -/

/-- The sequences of bytes that stand for a character. -/
inductive Sequence : Char → Bytes → Prop
  | one {c a} (value : Char.ofNat a.toNat = c) (high : a < 0x80) : Sequence c [a]
  | two {c a b} (value : ofTwo a b = c) (low : ¬a < 0xC2) (high : a < 0xE0)
      (second : mayFollow a b) : Sequence c [a, b]
  | three {c a b t} (value : ofThree a b t = c) (low : ¬a < 0xE0) (high : a < 0xF0)
      (second : mayFollow a b) (third : isContinuation t) : Sequence c [a, b, t]
  | four {c a b t u} (value : ofFour a b t u = c) (low : ¬a < 0xF0) (high : ¬0xF4 < a)
      (second : mayFollow a b) (third : isContinuation t) (fourth : isContinuation u) :
      Sequence c [a, b, t, u]

/-- A sequence is read as its character, and reading goes on behind it. -/
theorem Sequence.decodeFrom_append {c : Char} {bytes : Bytes} (h : Sequence c bytes)
    (index : Nat) (rest : Bytes) :
    decodeFrom index (bytes ++ rest) =
      (decodeFrom (index + bytes.length) rest).map (c :: ·) := by
  rw [decodeFrom.eq_def]
  cases h with
  | one value high => simp [high, value]
  | @two a _ value low high second =>
      have opens : ¬a < 0x80 ∧ ¬0xF4 < a := by
        simp only [UInt8.lt_iff_toNat_lt, UInt8.reduceToNat] at low high ⊢
        omega
      simp [opens, low, high, second, value]
  | @three a _ _ value low high second third =>
      have opens : ¬a < 0x80 ∧ ¬a < 0xC2 ∧ ¬0xF4 < a := by
        simp only [UInt8.lt_iff_toNat_lt, UInt8.reduceToNat] at low high ⊢
        omega
      simp [opens, low, high, second, third, value]
  | @four a _ _ _ value low high second third fourth =>
      have opens : ¬a < 0x80 ∧ ¬a < 0xC2 ∧ ¬a < 0xE0 := by
        simp only [UInt8.lt_iff_toNat_lt, UInt8.reduceToNat] at low ⊢
        omega
      simp [opens, low, high, second, third, fourth, value]

theorem mayFollow_of_bounds {a b : UInt8} (low : 0x80 ≤ b.toNat) (high : b.toNat ≤ 0xBF)
    (e0 : a.toNat = 0xE0 → 0xA0 ≤ b.toNat) (ed : a.toNat = 0xED → b.toNat ≤ 0x9F)
    (f0 : a.toNat = 0xF0 → 0x90 ≤ b.toNat) (f4 : a.toNat = 0xF4 → b.toNat ≤ 0x8F) :
    mayFollow a b := by
  simp only [mayFollow, isContinuation, ← UInt8.toNat_inj, UInt8.le_iff_toNat_le,
    UInt8.reduceToNat]
  grind

theorem isContinuation_ofNat (n : Nat) : isContinuation (.ofNat (0x80 + n % 0x40)) := by
  have small : 0x80 + n % 0x40 < 256 := by omega
  simp only [isContinuation, UInt8.le_iff_toNat_le, UInt8.toNat_ofNat_of_lt' small,
    UInt8.reduceToNat, Bool.and_eq_true, decide_eq_true_eq]
  omega

theorem toNat_bounds (c : Char) :
    c.toNat < 0xD800 ∨ 0xDFFF < c.toNat ∧ c.toNat < 0x110000 :=
  c.valid

theorem sequence_encodeChar (c : Char) : Sequence c (encodeChar c) := by
  have valid := toNat_bounds c
  have value {n : Nat} (same : n = c.toNat) : Char.ofNat n = c := by
    rw [same, Char.ofNat_toNat]
  have toNat {n : Nat} (small : n < 256) : (UInt8.ofNat n).toNat = n :=
    UInt8.toNat_ofNat_of_lt' small
  simp only [encodeChar]
  split
  · apply Sequence.one
    · exact value (toNat (by omega))
    · simp only [UInt8.lt_iff_toNat_lt, toNat (show c.toNat < 256 by omega), UInt8.reduceToNat]
      omega
  · split
    · have first := toNat (show 0xC0 + c.toNat / 0x40 < 256 by omega)
      have second := toNat (show 0x80 + c.toNat % 0x40 < 256 by omega)
      apply Sequence.two
      · rw [ofTwo, first, second]
        apply value
        omega
      · simp only [UInt8.lt_iff_toNat_lt, first, UInt8.reduceToNat]
        omega
      · simp only [UInt8.lt_iff_toNat_lt, first, UInt8.reduceToNat]
        omega
      · apply mayFollow_of_bounds <;> omega
    · split
      · have first := toNat (show 0xE0 + c.toNat / 0x1000 < 256 by omega)
        have second := toNat (show 0x80 + c.toNat / 0x40 % 0x40 < 256 by omega)
        have third := toNat (show 0x80 + c.toNat % 0x40 < 256 by omega)
        apply Sequence.three
        · rw [ofThree, first, second, third]
          apply value
          omega
        · simp only [UInt8.lt_iff_toNat_lt, first, UInt8.reduceToNat]
          omega
        · simp only [UInt8.lt_iff_toNat_lt, first, UInt8.reduceToNat]
          omega
        · apply mayFollow_of_bounds <;> omega
        · exact isContinuation_ofNat _
      · have first := toNat (show 0xF0 + c.toNat / 0x40000 < 256 by omega)
        have second := toNat (show 0x80 + c.toNat / 0x1000 % 0x40 < 256 by omega)
        have third := toNat (show 0x80 + c.toNat / 0x40 % 0x40 < 256 by omega)
        have fourth := toNat (show 0x80 + c.toNat % 0x40 < 256 by omega)
        apply Sequence.four
        · rw [ofFour, first, second, third, fourth]
          apply value
          omega
        · simp only [UInt8.lt_iff_toNat_lt, first, UInt8.reduceToNat]
          omega
        · simp only [UInt8.lt_iff_toNat_lt, first, UInt8.reduceToNat]
          omega
        · apply mayFollow_of_bounds <;> omega
        · exact isContinuation_ofNat _
        · exact isContinuation_ofNat _

theorem decodeFrom_encodeChars (index : Nat) (chars : List Char) :
    decodeFrom index (encodeChars chars) = .ok chars := by
  induction chars generalizing index with
  | nil => rfl
  | cons c chars ih =>
      rw [encodeChars_cons, (sequence_encodeChar c).decodeFrom_append, ih]
      rfl

theorem decode_encode (text : String) : decode (encode text) = .ok text := by
  rw [decode, encode, decodeFrom_encodeChars, Except.map, String.ofList_toList]

/-- The byte with all bits set opens no sequence and goes on in none. -/
theorem notMem_encode (text : String) : 0xFF ∉ encode text := by
  simp only [encode, encodeChars, List.mem_flatMap, not_exists, not_and]
  intro c _ member
  have valid := toNat_bounds c
  simp only [encodeChar] at member
  repeat' split at member
  all_goals
    simp only [List.mem_cons, ← UInt8.toNat_inj, UInt8.toNat_ofNat', UInt8.reduceToNat,
      List.not_mem_nil, or_false] at member
    omega

end TupleBlob.Utf8
