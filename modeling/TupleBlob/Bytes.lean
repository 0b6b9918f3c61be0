/-! # Byte strings, words and segments

Byte strings are lists of bytes, ordered like words in a dictionary by the order that core gives
to lists. A word is a signed number of 32 bits, written as four bytes with the most significant one
first. Every segment of a blob opens with a length word. A negative word marks a null and no payload
follows it; any other word is the size of the payload.

Main statements: `cut?` takes an exact number of bytes off the front, or fails because there are
fewer. Writing and reading a word are inverse to each other. The word written for a payload is read
back as its size, and exactly the sizes up to `maxPayload` have a word.
-/

namespace TupleBlob

abbrev Bytes := List UInt8

namespace Bytes

/-- The first `n` bytes and the bytes after them, or nothing where there are fewer than `n`.
The front is measured once it is taken, so a huge `n` costs no more than the bytes there are. -/
def cut? (n : Nat) (bytes : Bytes) : Option (Bytes × Bytes) :=
  let front := bytes.take n
  if front.length = n then some (front, bytes.drop n) else none

theorem cut?_eq_none_iff {n : Nat} {bytes : Bytes} : cut? n bytes = none ↔ bytes.length < n := by
  simp only [cut?, List.length_take]
  split <;> simp <;> omega

theorem cut?_eq_some_iff {n : Nat} {bytes front rest : Bytes} :
    cut? n bytes = some (front, rest) ↔ bytes = front ++ rest ∧ front.length = n := by
  simp only [cut?, List.length_take]
  constructor
  · intro h
    split at h
    · simp only [Option.some.injEq, Prod.mk.injEq] at h
      obtain ⟨rfl, rfl⟩ := h
      exact ⟨(List.take_append_drop n bytes).symm, by rw [List.length_take]; assumption⟩
    · cases h
  · rintro ⟨rfl, rfl⟩
    simp

@[simp] theorem cut?_length_append (front rest : Bytes) :
    cut? front.length (front ++ rest) = some (front, rest) :=
  cut?_eq_some_iff.2 ⟨rfl, rfl⟩

def isAscii (bytes : Bytes) : Bool :=
  bytes.all (· < 0x80)

end Bytes

/-! ## Words -/

abbrev Word := Int32

namespace Word

/-- The word that four bytes spell, the most significant byte first. -/
def ofBytes (a b c d : UInt8) : Word :=
  (UInt32.ofNat (((a.toNat * 256 + b.toNat) * 256 + c.toNat) * 256 + d.toNat)).toInt32

/-- The four bytes of a word, the most significant byte first. -/
def toBytes (word : Word) : Bytes :=
  let n := word.toUInt32.toNat
  [.ofNat (n / 0x1000000), .ofNat (n / 0x10000), .ofNat (n / 0x100), .ofNat n]

@[simp] theorem length_toBytes (word : Word) : (toBytes word).length = 4 := rfl

theorem toBytes_ofBytes (a b c d : UInt8) : toBytes (ofBytes a b c d) = [a, b, c, d] := by
  have ha := a.toNat_lt
  have hb := b.toNat_lt
  have hc := c.toNat_lt
  have hd := d.toNat_lt
  have hn : ((a.toNat * 256 + b.toNat) * 256 + c.toNat) * 256 + d.toNat < 4294967296 := by omega
  simp only [toBytes, ofBytes, UInt32.toUInt32_toInt32, UInt32.toNat_ofNat', List.cons.injEq,
    ← UInt8.toNat_inj, UInt8.toNat_ofNat', and_true]
  omega

theorem ofBytes_toBytes (word : Word) :
    ∃ a b c d, toBytes word = [a, b, c, d] ∧ ofBytes a b c d = word := by
  refine ⟨_, _, _, _, rfl, ?_⟩
  have h := word.toUInt32.toNat_lt
  rw [ofBytes, ← Int32.toInt32_toUInt32 word]
  congr 1
  rw [← UInt32.toNat_inj, UInt32.toNat_ofNat']
  simp only [UInt8.toNat_ofNat', Int32.toInt32_toUInt32]
  omega

inductive RangeFault
  | tooLarge
  | tooSmall
deriving DecidableEq, Repr

def RangeFault.message : RangeFault → String
  | .tooLarge => "number too large to fit in target type"
  | .tooSmall => "number too small to fit in target type"

/-- The word with the value `n`, if there is one. -/
def ofInt (n : Int) : Except RangeFault Word :=
  if 2147483647 < n then .error .tooLarge
  else if n < -2147483648 then .error .tooSmall
  else .ok (Int32.ofInt n)

theorem ofInt_toInt (word : Word) : ofInt word.toInt = .ok word := by
  have hle : word.toInt ≤ 2147483647 := word.toInt_le
  have hge : -2147483648 ≤ word.toInt := word.le_toInt
  rw [ofInt, if_neg (by omega), if_neg (by omega), Int32.ofInt_toInt]

end Word

/-! ## Segments and their length words -/

/-- The payload of a segment, or nothing for a null. -/
abbrev Segment := Option Bytes

/-- The word that opens a segment. -/
structure LengthWord where
  value : Word
deriving DecidableEq, Repr

namespace LengthWord

/-- The number of bytes that a length word takes. -/
def width : Nat := 4

/-- The largest payload whose size fits a length word. -/
def maxPayload : Nat := 2147483647

/-- The word that is written for a null. -/
def null : LengthWord := ⟨-1⟩

/-- Every negative word is read as a null, not only the one that is written. -/
def isNull (word : LengthWord) : Bool :=
  decide (word.value.toInt < 0)

/-- The size of the payload that follows, if one does. -/
def payloadSize? (word : LengthWord) : Option Nat :=
  if word.isNull then none else some word.value.toInt.toNat

/-- The word for a payload of `size` bytes, if it fits. -/
def ofSize? (size : Nat) : Option LengthWord :=
  if size ≤ maxPayload then some ⟨.ofNat size⟩ else none

def ofBytes (a b c d : UInt8) : LengthWord :=
  ⟨Word.ofBytes a b c d⟩

def toBytes (word : LengthWord) : Bytes :=
  Word.toBytes word.value

@[simp] theorem length_toBytes (word : LengthWord) : word.toBytes.length = width := rfl

@[simp] theorem isNull_null : null.isNull = true := rfl

theorem ofBytes_toBytes (word : LengthWord) :
    ∃ a b c d, word.toBytes = [a, b, c, d] ∧ ofBytes a b c d = word := by
  obtain ⟨a, b, c, d, hbytes, hword⟩ := Word.ofBytes_toBytes word.value
  exact ⟨a, b, c, d, hbytes, by rw [ofBytes, hword]⟩

theorem ofSize?_eq_none_iff {size : Nat} : ofSize? size = none ↔ maxPayload < size := by
  simp [ofSize?]

theorem payloadSize?_of_ofSize? {size : Nat} {word : LengthWord} (h : ofSize? size = some word) :
    word.payloadSize? = some size := by
  simp only [ofSize?, Option.ite_none_right_eq_some, Option.some.injEq] at h
  obtain ⟨hsize, rfl⟩ := h
  have hvalue : (Int32.ofNat size).toInt = size :=
    Int32.toInt_ofNat_of_lt (Nat.lt_of_le_of_lt hsize (by decide))
  simp [payloadSize?, isNull, hvalue]

end LengthWord

end TupleBlob
