import Mathlib.Algebra.GroupWithZero.Nat
import TupleBlob.Proofs.Spelling

/-! # Blobs written

Segments are written as the one blob that spells them, unless a payload is too large for a length
word. Main statement: components that fit are written, and what is written is read as them, one
after the other until the blob ends, or as the first of them where a type has fewer.
-/

namespace TupleBlob

open LengthWord

/-- What writing segments does. The leftmost payload that is too large is the one reported. -/
inductive WritesSegments : List Segment → Except Fault Bytes → Prop
  | written {segments blob} (spelled : Spells WrittenAsNull segments blob) :
      WritesSegments segments (.ok blob)
  | oversized {front blob payload rest} (spelled : Spells WrittenAsNull front blob)
      (large : maxPayload < payload.length) :
      WritesSegments (front ++ some payload :: rest)
        (.error (.oversizedComponent front.length payload.length))

variable {segments : List Segment} {blob : Bytes}

theorem exists_spells_or_oversized (segments : List Segment) :
    (∃ blob, Spells WrittenAsNull segments blob) ∨
      ∃ front blob payload rest, segments = front ++ some payload :: rest ∧
        Spells WrittenAsNull front blob ∧ maxPayload < payload.length := by
  induction segments with
  | nil => exact .inl ⟨[], .nil⟩
  | cons segment segments ih =>
      have first : (∃ bytes, SpellsSegment WrittenAsNull segment bytes) ∨
          ∃ payload, segment = some payload ∧ maxPayload < payload.length := by
        cases segment with
        | none => exact .inl ⟨_, .null rfl⟩
        | some payload =>
            cases fits : ofSize? payload.length with
            | none => exact .inr ⟨payload, rfl, ofSize?_eq_none_iff.mp fits⟩
            | some word => exact .inl ⟨_, .payload fits⟩
      rcases first with ⟨bytes, first⟩ | ⟨payload, rfl, large⟩
      · rcases ih with ⟨blob, spelled⟩ | ⟨front, blob, payload, rest, rfl, spelled, large⟩
        · exact .inl ⟨_, .cons first spelled⟩
        · exact .inr ⟨segment :: front, _, payload, rest, rfl, .cons first spelled, large⟩
      · exact .inr ⟨[], [], payload, segments, rfl, .nil, large⟩

theorem encodeSegments_oversized {front rest : List Segment} {payload : Bytes}
    (spelled : Spells WrittenAsNull front blob) (large : maxPayload < payload.length) :
    encodeSegments (front ++ some payload :: rest) =
      .error (.oversizedComponent front.length payload.length) := by
  simp only [encodeSegments, encode, Sink.writeComponents, Sink.unbounded, List.map_append,
    spelled.writeFrom_append, List.map_cons, Option.map_some, Sink.writeFrom,
    Sink.writeComponent, Payload.size, Sink.lengthWord, ofSize?_eq_none_iff.mpr large,
    Nat.zero_add]

theorem writesSegments (segments : List Segment) :
    WritesSegments segments (encodeSegments segments) := by
  rcases exists_spells_or_oversized segments with
    ⟨blob, spelled⟩ | ⟨front, blob, payload, rest, rfl, spelled, large⟩
  · rw [spelled.encodeSegments_eq]
    exact .written spelled
  · rw [encodeSegments_oversized spelled large]
    exact .oversized spelled large

theorem spells_of_encodeSegments (h : encodeSegments segments = .ok blob) :
    Spells WrittenAsNull segments blob := by
  have writes := writesSegments segments
  rw [h] at writes
  cases writes with
  | written spelled => exact spelled

/-- Payloads that fit their length words can be written. -/
theorem exists_spells_of_fits
    (fits : ∀ payload, some payload ∈ segments → payload.length ≤ maxPayload) :
    ∃ blob, Spells WrittenAsNull segments blob := by
  rcases exists_spells_or_oversized segments with
    spelled | ⟨front, blob, payload, rest, rfl, -, large⟩
  · exact spelled
  · have small := fits payload (by simp)
    exact absurd small (Nat.not_le_of_lt large)

/-- What is spelled fits its length words. -/
theorem Spells.fits {nulls : LengthWord → Prop} {payload : Bytes} (h : Spells nulls segments blob)
    (present : some payload ∈ segments) : payload.length ≤ maxPayload := by
  induction h with
  | nil => cases present
  | cons first _ ih =>
      cases present with
      | tail _ present => exact ih present
      | head =>
          cases first with
          | payload fits =>
              apply Nat.le_of_not_lt
              rw [← ofSize?_eq_none_iff, fits]
              exact Option.some_ne_none _

/-- A run of zeros is written like the bytes that it stands for. -/
theorem writeFrom_toBytes (components : List (Option Payload)) (index count : Nat)
    (written : Bytes) :
    Sink.writeFrom index count components ⟨none, written⟩ =
      Sink.writeFrom index count
        ((components.map (Option.map Payload.toBytes)).map (Option.map .bytes))
        ⟨none, written⟩ := by
  induction components generalizing index count written with
  | nil => rfl
  | cons component components ih =>
      cases component with
      | none =>
          simp only [List.map_cons, Option.map_none, Sink.writeFrom, Sink.writeComponent,
            Sink.write, ih]
      | some payload =>
          have size : (Payload.bytes payload.toBytes).size = payload.size :=
            Payload.length_toBytes payload
          simp only [List.map_cons, Option.map_some, Sink.writeFrom, Sink.writeComponent, size]
          cases Sink.lengthWord index payload.size with
          | error => rfl
          | ok word => simp only [Sink.write, Payload.toBytes, ih]

theorem encode_eq_encodeSegments (components : List (Option Payload)) :
    encode components = encodeSegments (components.map (Option.map Payload.toBytes)) := by
  simp only [encode, encodeSegments, Sink.writeComponents, Sink.unbounded,
    writeFrom_toBytes components]

/-- Reading segment after segment gives these until it finds the end, where the reader is then
left. -/
inductive Reader.Drains : Reader → List Segment → Reader → Prop
  | atEnd {r last} (h : r.next = (.ok none, last)) : Drains r [] last
  | segment {r rest first others last} (h : r.next = (.ok (some first), rest))
      (drained : Drains rest others last) : Drains r (first :: others) last

namespace Spells

variable {nulls : LengthWord → Prop}

theorem length_eq (h : Spells nulls segments blob) :
    blob.length =
      width * segments.length + (segments.map (Option.elim · 0 List.length)).sum := by
  induction h with
  | nil => rfl
  | cons first _ ih =>
      cases first with
      | null | payload =>
          simp only [List.length_append, length_toBytes, ih, List.length_cons, List.map_cons,
            List.sum_cons, Option.elim_none, Option.elim_some, Nat.mul_succ]
          omega

theorem drains (h : Spells ReadAsNull segments blob) (offset : Nat) :
    Reader.Drains ⟨offset, blob⟩ segments ⟨offset + blob.length, []⟩ := by
  induction h generalizing offset with
  | nil => exact .atEnd rfl
  | @cons segment _ front rest first _ ih =>
      have step : Reader.next ⟨offset, front ++ rest⟩ =
          (.ok (some segment), ⟨offset + front.length, rest⟩) := by
        simp only [Reader.next, first.readSegment]
      rw [List.length_append, ← Nat.add_assoc]
      exact .segment step (ih _)

end Spells

/-- Components whose payloads fit are written, and read again as they were: all of them until the
blob ends, or the first of them where the type has fewer components. -/
theorem encode_reads_back {components : List (Option Payload)}
    (fits : ∀ payload, some payload ∈ components → payload.size ≤ maxPayload) :
    ∃ blob, encode components = .ok blob ∧
      blob.length =
        width * components.length + (components.map (Option.elim · 0 Payload.size)).sum ∧
      (Reader.start blob).Drains (components.map (Option.map Payload.toBytes))
        ⟨blob.length, []⟩ ∧
      ∀ arity, split arity blob =
        .ok ((components.map (Option.map Payload.toBytes)).take arity) := by
  have small : ∀ payload, some payload ∈ components.map (Option.map Payload.toBytes) →
      payload.length ≤ maxPayload := by
    intro payload member
    obtain ⟨component, inside, same⟩ := List.mem_map.mp member
    obtain ⟨present, rfl, rfl⟩ := Option.map_eq_some_iff.mp same
    rw [Payload.length_toBytes]
    exact fits present inside
  obtain ⟨blob, spelled⟩ := exists_spells_of_fits small
  refine ⟨blob, ?_, ?_, ?_, ?_⟩
  · rw [encode_eq_encodeSegments, spelled.encodeSegments_eq]
  · have sizes : (Option.elim · 0 List.length) ∘ Option.map Payload.toBytes =
        (Option.elim · 0 Payload.size) := by
      funext component
      cases component with
      | none => rfl
      | some payload => exact Payload.length_toBytes payload
    rw [spelled.length_eq, List.length_map, List.map_map, sizes]
  · simpa [Reader.start] using spelled.readable.drains 0
  · intro arity
    exact spelled.readable.segments_take arity 0

/-- A null, an empty payload, and payloads that look like length words. -/
theorem encode_reads_back_wordlike :
    (∀ payload : Payload, some payload ∈ [none, some (.bytes []),
        some (.bytes [255, 255, 255, 255]), some (.zeros 4)] → payload.size ≤ maxPayload) ∧
    ∃ blob,
      encode [none, some (.bytes []), some (.bytes [255, 255, 255, 255]), some (.zeros 4)] =
        .ok blob ∧
      blob.length = 24 ∧
      (Reader.start blob).Drains
        [none, some [], some [255, 255, 255, 255], some [0, 0, 0, 0]] ⟨blob.length, []⟩ ∧
      ∀ arity, split arity blob =
        .ok ([none, some [], some [255, 255, 255, 255], some [0, 0, 0, 0]].take arity) := by
  have fits : ∀ payload : Payload, some payload ∈ [none, some (.bytes []),
      some (.bytes [255, 255, 255, 255]), some (.zeros 4)] → payload.size ≤ maxPayload := by
    simp [Payload.size, maxPayload]
  exact ⟨fits, encode_reads_back fits⟩

end TupleBlob
