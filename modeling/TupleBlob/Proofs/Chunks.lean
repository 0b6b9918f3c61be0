import TupleBlob.Proofs.Validity
import TupleBlob.Scalar

/-! # Valid blobs, chunk by chunk

A blob is cut into chunks: a length word each, and the payload that the word announces. Chunks put
one after the other can be told apart again in one way only. Main statements: this, and that a
tuple type accepts the blobs that are chunks in line with its components, one for each at most,
and refuses a blob that goes on behind its last component for exactly the bytes left over.
-/

namespace TupleBlob

open LengthWord

/-- A length word and the payload behind it. A negative word has no payload, and any other has as
many bytes as it says. -/
structure Chunk where
  word : LengthWord
  payload : Bytes
  sized : payload.length = word.value.toInt.toNat

namespace Chunk

def toBytes (chunk : Chunk) : Bytes := chunk.word.toBytes ++ chunk.payload

/-- A negative word is a null; behind any other there is a payload, which may be empty. -/
def segment (chunk : Chunk) : Segment :=
  if chunk.word.value.toInt < 0 then none else some chunk.payload

/-- The blob of some chunks, one after the other. -/
def join (chunks : List Chunk) : Bytes := chunks.flatMap toBytes

/-! ## Chunks and spellings -/

theorem spells (chunk : Chunk) : SpellsSegment ReadAsNull chunk.segment chunk.toBytes := by
  obtain ⟨word, payload, sized⟩ := chunk
  simp only [segment, toBytes]
  split
  · rename_i negative
    have empty : payload = [] := by
      rw [← List.length_eq_zero_iff, sized]
      omega
    rw [empty, List.append_nil]
    exact .null (decide_eq_true negative)
  · rename_i positive
    apply SpellsSegment.payload
    apply ofSize?_of_payloadSize?
    simp only [payloadSize?, isNull, positive, decide_false, Bool.false_eq_true, if_false, sized]

theorem spells_join (chunks : List Chunk) :
    Spells ReadAsNull (chunks.map segment) (join chunks) := by
  induction chunks with
  | nil => exact .nil
  | cons chunk _ ih => exact .cons chunk.spells ih

theorem exists_chunk {segment : Segment} {front : Bytes}
    (spelled : SpellsSegment ReadAsNull segment front) :
    ∃ chunk : Chunk, chunk.segment = segment ∧ chunk.toBytes = front := by
  cases spelled with
  | @null word null =>
      have negative : word.value.toInt < 0 := of_decide_eq_true null
      have sized : ([] : Bytes).length = word.value.toInt.toNat := by
        rw [List.length_nil]
        omega
      exact ⟨⟨word, [], sized⟩, if_pos negative, List.append_nil _⟩
  | @payload payload word fits =>
      have present := payloadSize?_of_ofSize? fits
      simp only [payloadSize?, isNull, decide_eq_true_eq, Option.ite_none_left_eq_some,
        Option.some.injEq] at present
      exact ⟨⟨word, payload, present.2.symm⟩, if_neg present.1, rfl⟩

theorem exists_join {segments : List Segment} {blob : Bytes}
    (spelled : Spells ReadAsNull segments blob) :
    ∃ chunks : List Chunk, chunks.map segment = segments ∧ join chunks = blob := by
  induction spelled with
  | nil => exact ⟨[], rfl, rfl⟩
  | cons first _ ih =>
      obtain ⟨chunk, rfl, rfl⟩ := exists_chunk first
      obtain ⟨chunks, rfl, rfl⟩ := ih
      exact ⟨chunk :: chunks, rfl, rfl⟩

/-! ## Chunks told apart -/

theorem toBytes_injective : Function.Injective toBytes := by
  rintro ⟨word, payload, sized⟩ ⟨word', payload', sized'⟩ same
  obtain ⟨words, rfl⟩ := List.append_inj same rfl
  obtain ⟨a, b, c, d, bytes, rfl⟩ := word.ofBytes_toBytes
  obtain ⟨a', b', c', d', bytes', rfl⟩ := word'.ofBytes_toBytes
  rw [bytes, bytes'] at words
  cases words
  rfl

/-- The first chunk of a blob is told by reading the blob, whatever follows. -/
theorem eq_of_append_eq {chunk chunk' : Chunk} {rest rest' : Bytes}
    (same : chunk.toBytes ++ rest = chunk'.toBytes ++ rest') : chunk = chunk' ∧ rest = rest' := by
  obtain ⟨-, bytes, rests⟩ := chunk.spells.eq_of_append_eq chunk'.spells same
  exact ⟨toBytes_injective bytes, rests⟩

theorem join_eq_nil_iff {chunks : List Chunk} : join chunks = [] ↔ chunks = [] := by
  rw [(spells_join chunks).eq_nil_iff, List.map_eq_nil_iff]

/-- A blob is cut into chunks in one way at most. -/
theorem join_injective : Function.Injective join := by
  intro chunks others same
  induction chunks generalizing others with
  | nil => exact (join_eq_nil_iff.mp same.symm).symm
  | cons chunk chunks ih =>
      cases others with
      | nil => exact join_eq_nil_iff.mp same
      | cons other others =>
          obtain ⟨rfl, rests⟩ := eq_of_append_eq same
          rw [ih rests]

end Chunk

namespace Ty

variable {S : Type} [ScalarType S]

/-- Chunks in line with all components are passed over, and what is left is refused. -/
theorem validate_join_append {ts : List (Ty S)} {chunks : List Chunk} {rest : Bytes}
    (aligned : Aligned Valid ts (chunks.map Chunk.segment)) (full : chunks.length = ts.length)
    (more : rest ≠ []) :
    (Ty.tuple ts).validate (Chunk.join chunks ++ rest) =
      .error (.ofFault (.trailingData rest.length)) := by
  have nothing : ts.drop (chunks.map Chunk.segment).length = [] := by
    rw [List.length_map, full, List.drop_length]
  have remains : rest.isEmpty = false := List.isEmpty_eq_false_iff.mpr more
  rw [validate, Reader.start, validateFrom_append (Chunk.spells_join chunks) aligned, nothing]
  simp only [validateFrom, Reader.hasRemaining, Reader.remaining, remains, Bool.not_false, if_true]

/-- A tuple type accepts the chunks that are in line with its components, at most one for each,
and such a blob is split into them and into nothing else. Bytes behind the last component are
refused and counted, whatever they are. -/
theorem valid_iff_chunks (ts : List (Ty S)) (blob : Bytes) :
    ((Ty.tuple ts).Valid blob ↔
      ∃ chunks, Chunk.join chunks = blob ∧ Aligned Valid ts (chunks.map Chunk.segment)) ∧
    (∀ chunks, Chunk.join chunks = blob →
      (∀ others, Chunk.join others = blob → others = chunks) ∧
      (chunks.length ≤ ts.length → split ts.length blob = .ok (chunks.map Chunk.segment))) ∧
    ∀ chunks rest, Chunk.join chunks ++ rest = blob → chunks.length = ts.length →
      Aligned Valid ts (chunks.map Chunk.segment) → rest ≠ [] →
      (Ty.tuple ts).validate blob = .error (.ofFault (.trailingData rest.length)) := by
  refine ⟨?_, ?_, ?_⟩
  · rw [valid_tuple_iff]
    constructor
    · rintro ⟨segments, spelled, aligned⟩
      obtain ⟨chunks, rfl, joined⟩ := Chunk.exists_join spelled
      exact ⟨chunks, joined, aligned⟩
    · rintro ⟨chunks, rfl, aligned⟩
      exact ⟨_, Chunk.spells_join chunks, aligned⟩
  · rintro chunks rfl
    refine ⟨fun others same => Chunk.join_injective same, fun few => ?_⟩
    apply (Chunk.spells_join chunks).split_eq
    rwa [List.length_map]
  · rintro chunks rest rfl full aligned more
    exact validate_join_append aligned full more

/-- A null spelled unusually and an inner tuple, and then half a length word behind them. -/
theorem valid_iff_chunks_nested :
    (Ty.tuple [.scalar Scalar.int32, .tuple [.scalar .utf8]]).Valid
      [255, 255, 255, 254, 0, 0, 0, 5, 0, 0, 0, 1, 97] ∧
    (∀ others, Chunk.join others = [255, 255, 255, 254, 0, 0, 0, 5, 0, 0, 0, 1, 97] →
      others = [⟨⟨-2⟩, [], rfl⟩, ⟨⟨5⟩, [0, 0, 0, 1, 97], rfl⟩]) ∧
    split 2 [255, 255, 255, 254, 0, 0, 0, 5, 0, 0, 0, 1, 97] =
      .ok [none, some [0, 0, 0, 1, 97]] ∧
    (Ty.tuple [.scalar Scalar.int32, .tuple [.scalar .utf8]]).validate
        [255, 255, 255, 254, 0, 0, 0, 5, 0, 0, 0, 1, 97, 0, 0] =
      .error (.ofFault (.trailingData 2)) := by
  obtain ⟨accepted, cut, -⟩ := valid_iff_chunks [.scalar Scalar.int32, .tuple [.scalar .utf8]]
    [255, 255, 255, 254, 0, 0, 0, 5, 0, 0, 0, 1, 97]
  obtain ⟨-, -, refused⟩ := valid_iff_chunks [.scalar Scalar.int32, .tuple [.scalar .utf8]]
    [255, 255, 255, 254, 0, 0, 0, 5, 0, 0, 0, 1, 97, 0, 0]
  have aligned : Aligned Valid [.scalar Scalar.int32, .tuple [.scalar .utf8]]
      [none, some [0, 0, 0, 1, 97]] := .null (.payload rfl .nil)
  obtain ⟨unique, splits⟩ := cut [⟨⟨-2⟩, [], rfl⟩, ⟨⟨5⟩, [0, 0, 0, 1, 97], rfl⟩] rfl
  refine ⟨accepted.mpr ⟨[⟨⟨-2⟩, [], rfl⟩, ⟨⟨5⟩, [0, 0, 0, 1, 97], rfl⟩], rfl, aligned⟩, unique,
    splits (Nat.le_refl 2), ?_⟩
  exact refused [⟨⟨-2⟩, [], rfl⟩, ⟨⟨5⟩, [0, 0, 0, 1, 97], rfl⟩] [0, 0] rfl rfl aligned
    (List.cons_ne_nil _ _)

end Ty

end TupleBlob
