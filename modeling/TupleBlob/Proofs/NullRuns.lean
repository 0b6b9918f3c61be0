import TupleBlob.Proofs.Encoding

/-! # Runs of nulls

Skipping nulls reads length words only. It stops behind the first word that is not negative, whether
or not the payload that the word announces is there. Main statement: what comes of it is told by
what stands behind the negative words that the bytes begin with, and where all segments can be
read, nothing stands there exactly when they are all nulls.
-/

namespace TupleBlob

open LengthWord

/-- The bytes begin with some number of negative words, and behind those stands the rest. -/
inductive BehindNulls : (bytes : Bytes) → (count : Nat) → (rest : Bytes) → Prop
  | here {bytes} : BehindNulls bytes 0 bytes
  | null {word : LengthWord} {bytes count rest} (negative : word.value.toInt < 0)
      (others : BehindNulls bytes count rest) :
      BehindNulls (word.toBytes ++ bytes) (count + 1) rest

namespace Reader

/-- Length words are read, one after the other, until one is not null: what comes of it, and the
reader that is left. -/
inductive Skips : Reader → Except Fault Bool → Reader → Prop
  | atEnd {r last} (read : r.readLength = (.ok .atEnd, last)) : Skips r (.ok true) last
  | null {r size word behind answer last} (read : r.readLength = (.ok (.item size word), behind))
      (null : word.isNull = true) (others : Skips behind answer last) : Skips r answer last
  | present {r size word last} (read : r.readLength = (.ok (.item size word), last))
      (present : word.isNull = false) : Skips r (.ok false) last
  | fault {r cause last} (read : r.readLength = (.error cause, last)) : Skips r (.error cause) last

/-- The bytes at an offset do not begin with a negative word: what skipping gives there, and the
reader that is left. -/
inductive EndsNulls (offset : Nat) : Bytes → Except Fault Bool → Reader → Prop
  | atEnd : EndsNulls offset [] (.ok true) ⟨offset, []⟩
  | present {word : LengthWord} {rest} (positive : 0 ≤ word.value.toInt) :
      EndsNulls offset (word.toBytes ++ rest) (.ok false) ⟨offset + width, rest⟩
  | short {left} (begun : left ≠ []) (short : left.length < width) :
      EndsNulls offset left (.error (.truncatedLength offset left.length)) ⟨offset, left⟩

variable {r last : Reader} {offset count : Nat} {bytes rest : Bytes} {answer : Except Fault Bool}

/-! ## The loop -/

theorem skips_skipNulls (r : Reader) : r.Skips r.skipNulls.1 r.skipNulls.2 := by
  induction left : r.remaining using Nat.strongRecOn generalizing r with
  | ind n ih =>
      subst left
      have step := r.readsLength
      generalize read : r.readLength = found at step
      rw [skipNulls_eq, read]
      cases step with
      | atEnd => exact .atEnd read
      | short => exact .fault read
      | @item offset word rest =>
          have forward : rest.length < (word.toBytes ++ rest).length := by
            simp only [List.length_append, length_toBytes, width]
            omega
          dsimp only
          split
          · rename_i null
            exact .null read null (ih _ forward _ rfl)
          · rename_i present
            exact .present read (eq_false_of_ne_true present)

/-- The loop passes the negative words at the front and stops at what is behind them. -/
theorem Skips.exists_behindNulls (h : Skips r answer last) :
    ∃ count rest, BehindNulls r.rest count rest ∧
      EndsNulls (r.offset + width * count) rest answer last := by
  induction h with
  | atEnd read =>
      cases readLength_eq_iff.mp read with
      | atEnd => exact ⟨0, [], .here, .atEnd⟩
  | fault read =>
      cases readLength_eq_iff.mp read with
      | short begun short => exact ⟨0, _, .here, .short begun short⟩
  | present read present =>
      cases readLength_eq_iff.mp read with
      | item => exact ⟨0, _, .here, .present (Int.not_lt.mp (of_decide_eq_false present))⟩
  | null read null _ ih =>
      cases readLength_eq_iff.mp read with
      | item =>
          obtain ⟨count, rest, behind, ends⟩ := ih
          refine ⟨count + 1, rest, .null (of_decide_eq_true null) behind, ?_⟩
          rwa [Nat.mul_succ, Nat.add_comm (width * count), ← Nat.add_assoc]

/-! ## What skipping gives -/

theorem skipNulls_toBytes (word : LengthWord) (rest : Bytes) :
    skipNulls ⟨offset, word.toBytes ++ rest⟩ =
      if word.isNull then skipNulls ⟨offset + width, rest⟩
      else (.ok false, ⟨offset + width, rest⟩) := by
  rw [skipNulls_eq, readLength_toBytes]

theorem skipNulls_of_behindNulls (h : BehindNulls bytes count rest) (offset : Nat) :
    skipNulls ⟨offset, bytes⟩ = skipNulls ⟨offset + width * count, rest⟩ := by
  induction h generalizing offset with
  | here => rfl
  | @null word _ count _ negative _ ih =>
      have null : word.isNull = true := decide_eq_true negative
      rw [skipNulls_toBytes, if_pos null, ih, Nat.mul_succ, Nat.add_comm (width * count),
        ← Nat.add_assoc]

theorem EndsNulls.skipNulls_eq (h : EndsNulls offset rest answer last) :
    skipNulls ⟨offset, rest⟩ = (answer, last) := by
  cases h with
  | atEnd => rfl
  | @present word _ positive =>
      have present : word.isNull = false := decide_eq_false (Int.not_lt.mpr positive)
      rw [skipNulls_toBytes, present]
      rfl
  | short begun short =>
      rw [Reader.skipNulls_eq, readLength_eq_iff.mpr (.short begun short)]

theorem skipNulls_eq_iff :
    r.skipNulls = (answer, last) ↔
      ∃ count rest, BehindNulls r.rest count rest ∧
        EndsNulls (r.offset + width * count) rest answer last := by
  constructor
  · intro skipped
    have loop := skips_skipNulls r
    rw [skipped] at loop
    exact loop.exists_behindNulls
  · rintro ⟨count, rest, behind, ends⟩
    exact (skipNulls_of_behindNulls behind r.offset).trans ends.skipNulls_eq

theorem fst_skipNulls_eq_iff :
    r.skipNulls.1 = answer ↔
      ∃ count rest last, BehindNulls r.rest count rest ∧
        EndsNulls (r.offset + width * count) rest answer last := by
  constructor
  · rintro rfl
    obtain ⟨count, rest, behind, ends⟩ := skipNulls_eq_iff.mp (rfl : r.skipNulls = (_, _))
    exact ⟨count, rest, _, behind, ends⟩
  · rintro ⟨count, rest, last, behind, ends⟩
    rw [skipNulls_eq_iff.mpr ⟨count, rest, behind, ends⟩]

/-! ## Against reading segments -/

/-- What reading gives up to the end is what the bytes spell. -/
theorem Drains.spells {segments : List Segment} (h : r.Drains segments last) :
    Spells ReadAsNull segments r.rest := by
  induction h with
  | @atEnd r _ read =>
      have step := r.readsSegment
      rw [next] at read
      generalize r.readSegment = found at step read
      cases step with
      | atEnd => exact .nil
      | item | shortWord | shortPayload => cases read
  | @segment r _ _ _ _ read _ ih =>
      have step := r.readsSegment
      rw [next] at read
      generalize r.readSegment = found at step read
      cases step with
      | item spelled =>
          cases read
          exact .cons spelled ih
      | atEnd | shortWord | shortPayload => cases read

theorem Drains.skipNulls_eq {segments : List Segment} (h : r.Drains segments last) :
    r.skipNulls.1 = .ok (segments.all Option.isNone) :=
  h.spells.skipNulls_eq r.offset

/-- Skipping nulls comes to an end. It finds nothing else exactly where the bytes left are negative
words and no more, and a payload exactly where there are negative words and then a word that is not
negative, behind which the reader then stands, whatever follows. It fails exactly where one to three
bytes follow negative words, and names their place. Where all segments can be read, it finds nothing
else exactly when they are all nulls. -/
theorem skipNulls_decides (r : Reader) :
    r.Skips r.skipNulls.1 r.skipNulls.2 ∧
    (r.skipNulls.1 = .ok true ↔ ∃ count, BehindNulls r.rest count []) ∧
    (r.skipNulls.1 = .ok false ↔ ∃ (count : Nat) (word : LengthWord) (rest : Bytes),
      BehindNulls r.rest count (word.toBytes ++ rest) ∧ 0 ≤ word.value.toInt) ∧
    (∀ (count : Nat) (word : LengthWord) (rest : Bytes),
      BehindNulls r.rest count (word.toBytes ++ rest) → 0 ≤ word.value.toInt →
        r.skipNulls.2 = ⟨r.offset + width * (count + 1), rest⟩) ∧
    (∀ cause, r.skipNulls.1 = .error cause ↔ ∃ count left,
      BehindNulls r.rest count left ∧ left ≠ [] ∧ left.length < width ∧
        cause = .truncatedLength (r.offset + width * count) left.length) ∧
    ∀ segments last, r.Drains segments last →
      (r.skipNulls.1 = .ok true ↔ ∀ segment ∈ segments, segment = none) := by
  refine ⟨skips_skipNulls r, ?_, ?_, ?_, ?_, ?_⟩
  · rw [fst_skipNulls_eq_iff]
    constructor
    · rintro ⟨count, rest, last, behind, ends⟩
      cases ends with
      | atEnd => exact ⟨count, behind⟩
    · intro ⟨count, behind⟩
      exact ⟨count, [], _, behind, .atEnd⟩
  · rw [fst_skipNulls_eq_iff]
    constructor
    · rintro ⟨count, rest, last, behind, ends⟩
      cases ends with
      | present positive => exact ⟨count, _, _, behind, positive⟩
    · intro ⟨count, word, rest, behind, positive⟩
      exact ⟨count, _, _, behind, .present positive⟩
  · intro count word rest behind positive
    rw [skipNulls_eq_iff.mpr ⟨count, _, behind, .present positive⟩, Nat.mul_succ, Nat.add_assoc]
  · intro cause
    rw [fst_skipNulls_eq_iff]
    constructor
    · rintro ⟨count, rest, last, behind, ends⟩
      cases ends with
      | short begun short => exact ⟨count, rest, behind, begun, short, rfl⟩
    · rintro ⟨count, left, behind, begun, short, rfl⟩
      exact ⟨count, left, _, behind, .short begun short⟩
  · intro segments last drained
    rw [drained.skipNulls_eq]
    simp

/-- Behind an unusual null, a payload is found although it is cut short; unusual nulls are nulls. -/
theorem skipNulls_decides_unusual_null :
    (start [255, 255, 255, 254, 0, 0, 0, 9, 97]).skipNulls = (.ok false, ⟨8, [97]⟩) ∧
    (start [255, 255, 255, 254, 255, 255, 255, 255]).Drains [none, none] ⟨8, []⟩ ∧
    (start [255, 255, 255, 254, 255, 255, 255, 255]).skipNulls.1 = .ok true := by
  obtain ⟨-, -, found, stands, -, -⟩ :=
    skipNulls_decides (start [255, 255, 255, 254, 0, 0, 0, 9, 97])
  obtain ⟨-, -, -, -, -, read⟩ :=
    skipNulls_decides (start [255, 255, 255, 254, 255, 255, 255, 255])
  have behind : BehindNulls [255, 255, 255, 254, 0, 0, 0, 9, 97] 1 (toBytes ⟨9⟩ ++ [97]) :=
    @BehindNulls.null ⟨-2⟩ _ _ _ (by decide) .here
  have drained : (start [255, 255, 255, 254, 255, 255, 255, 255]).Drains [none, none] ⟨8, []⟩ :=
    .segment rfl (.segment rfl (.atEnd rfl))
  refine ⟨Prod.ext (found.mpr ⟨1, ⟨9⟩, [97], behind, by decide⟩) ?_, drained, ?_⟩
  · exact stands 1 ⟨9⟩ [97] behind (by decide)
  · exact (read _ _ drained).mpr (by simp)

end Reader

end TupleBlob
