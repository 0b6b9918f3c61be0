import TupleBlob.Proofs.Outcome
import TupleBlob.Reader
import TupleBlob.Sink

/-! # The grammar of blobs

A blob spells a list of segments when it is their bytes, one segment after the other. A payload
has one spelling; a null has one for each word of a given set, since every negative word is read
as a null and only one of them is written. Main statements: bytes are read as a segment exactly
when they spell it, so a blob spells one list of segments at most, and writing gives the spelling
with the one word for nulls.
-/

namespace TupleBlob

namespace LengthWord

/-- The words that are read as a null. -/
def ReadAsNull (word : LengthWord) : Prop := word.isNull = true

/-- The word that is written for a null. -/
def WrittenAsNull (word : LengthWord) : Prop := word = .null

theorem WrittenAsNull.readAsNull {word : LengthWord} (h : word.WrittenAsNull) :
    word.ReadAsNull := by
  cases h
  exact isNull_null

theorem payloadSize?_eq_none_iff {word : LengthWord} :
    word.payloadSize? = none ↔ word.ReadAsNull := by
  simp [payloadSize?, ReadAsNull]

theorem ofSize?_of_payloadSize? {word : LengthWord} {size : Nat}
    (h : word.payloadSize? = some size) : ofSize? size = some word := by
  obtain ⟨value⟩ := word
  simp only [payloadSize?, isNull, decide_eq_true_eq, Option.ite_none_left_eq_some,
    Option.some.injEq] at h
  obtain ⟨positive, rfl⟩ := h
  have upper : value.toInt ≤ 2147483647 := value.toInt_le
  have fits : value.toInt.toNat ≤ maxPayload := by
    simp only [maxPayload]
    omega
  have same : Int32.ofNat value.toInt.toNat = value := by
    rw [← Int32.toInt_inj, Int32.toInt_ofNat_of_lt (by simp only [maxPayload] at fits; omega)]
    omega
  simp only [ofSize?, if_pos fits, same]

end LengthWord

open LengthWord

/-- The bytes of one segment, where a null is any of the words `nulls`. -/
inductive SpellsSegment (nulls : LengthWord → Prop) : Segment → Bytes → Prop
  | null {word} (h : nulls word) : SpellsSegment nulls none word.toBytes
  | payload {payload word} (h : ofSize? payload.length = some word) :
      SpellsSegment nulls (some payload) (word.toBytes ++ payload)

/-- The bytes of some segments, one after the other. -/
inductive Spells (nulls : LengthWord → Prop) : List Segment → Bytes → Prop
  | nil : Spells nulls [] []
  | cons {segment segments front rest} (first : SpellsSegment nulls segment front)
      (others : Spells nulls segments rest) :
      Spells nulls (segment :: segments) (front ++ rest)

variable {nulls : LengthWord → Prop} {segment : Segment} {segments : List Segment}

namespace SpellsSegment

variable {front : Bytes}

theorem ne_nil (h : SpellsSegment nulls segment front) : front ≠ [] := by
  cases h with
  | null | payload => exact List.cons_ne_nil _ _

theorem mono {wider : LengthWord → Prop} (sub : ∀ word, nulls word → wider word)
    (h : SpellsSegment nulls segment front) : SpellsSegment wider segment front := by
  cases h with
  | null h => exact .null (sub _ h)
  | payload h => exact .payload h

/-- Where one word stands for a null, a segment has one spelling. -/
theorem eq_of_written {other : Bytes} (h : SpellsSegment WrittenAsNull segment front)
    (h' : SpellsSegment WrittenAsNull segment other) : front = other := by
  cases h with
  | null h =>
      cases h' with
      | null h' => rw [h, h']
  | payload h =>
      cases h' with
      | payload h' =>
          cases h.symm.trans h'
          rfl

theorem readSegment (h : SpellsSegment ReadAsNull segment front) (offset : Nat) (rest : Bytes) :
    Reader.readSegment ⟨offset, front ++ rest⟩ =
      (.ok (.item front.length segment), ⟨offset + front.length, rest⟩) := by
  cases h with
  | null h =>
      simp only [Reader.readSegment, Reader.readLength_toBytes, payloadSize?_eq_none_iff.mpr h,
        length_toBytes]
  | @payload payload word h =>
      simp only [Reader.readSegment, List.append_assoc, Reader.readLength_toBytes,
        payloadSize?_of_ofSize? h, Reader.readBytes_append, List.length_append, length_toBytes,
        Nat.add_assoc]

/-- The segment at the front of some bytes is told by reading them. -/
theorem eq_of_append_eq {segment' : Segment} {front' rest rest' : Bytes}
    (h : SpellsSegment ReadAsNull segment front) (h' : SpellsSegment ReadAsNull segment' front')
    (same : front ++ rest = front' ++ rest') :
    segment = segment' ∧ front = front' ∧ rest = rest' := by
  have read := h.readSegment 0 rest
  rw [same, h'.readSegment 0 rest'] at read
  simp only [Prod.mk.injEq, Except.ok.injEq, Found.item.injEq, Reader.mk.injEq] at read
  obtain ⟨⟨-, rfl⟩, -, rfl⟩ := read
  exact ⟨rfl, List.append_cancel_right same, rfl⟩

end SpellsSegment

namespace Reader

/-- What reading a length word does. -/
inductive ReadsLength : Reader → Except Fault (Found LengthWord) × Reader → Prop
  | atEnd {offset} : ReadsLength ⟨offset, []⟩ (.ok .atEnd, ⟨offset, []⟩)
  | item {offset word rest} :
      ReadsLength ⟨offset, word.toBytes ++ rest⟩
        (.ok (.item width word), ⟨offset + width, rest⟩)
  | short {offset rest} (some : rest ≠ []) (short : rest.length < width) :
      ReadsLength ⟨offset, rest⟩ (.error (.truncatedLength offset rest.length), ⟨offset, rest⟩)

theorem readsLength (r : Reader) : ReadsLength r r.readLength := by
  obtain ⟨offset, rest⟩ := r
  match rest with
  | [] => exact .atEnd
  | [_] | [_, _] | [_, _, _] => exact .short (by simp) (by simp [width])
  | a :: b :: c :: d :: rest =>
      have spelled : a :: b :: c :: d :: rest = (LengthWord.ofBytes a b c d).toBytes ++ rest := by
        simp only [LengthWord.toBytes, LengthWord.ofBytes, Word.toBytes_ofBytes, List.cons_append,
          List.nil_append]
      rw [spelled, readLength_toBytes]
      exact .item

theorem readLength_eq_iff {r : Reader} {found : Except Fault (Found LengthWord) × Reader} :
    r.readLength = found ↔ ReadsLength r found := by
  constructor
  · rintro rfl
    exact r.readsLength
  · intro reads
    cases reads with
    | atEnd => rfl
    | item => exact readLength_toBytes _ _ _
    | @short _ rest begun short =>
        match rest with
        | [] => exact absurd rfl begun
        | [_] | [_, _] | [_, _, _] => rfl
        | _ :: _ :: _ :: _ :: _ =>
            simp only [List.length_cons, width] at short
            omega

/-- What reading a segment does. -/
inductive ReadsSegment : Reader → Except Fault (Found Segment) × Reader → Prop
  | atEnd {offset} : ReadsSegment ⟨offset, []⟩ (.ok .atEnd, ⟨offset, []⟩)
  | item {offset segment front rest} (spelled : SpellsSegment ReadAsNull segment front) :
      ReadsSegment ⟨offset, front ++ rest⟩
        (.ok (.item front.length segment), ⟨offset + front.length, rest⟩)
  | shortWord {offset rest} (some : rest ≠ []) (short : rest.length < width) :
      ReadsSegment ⟨offset, rest⟩ (.error (.truncatedLength offset rest.length), ⟨offset, rest⟩)
  | shortPayload {offset word size rest} (present : payloadSize? word = some size)
      (short : rest.length < size) :
      ReadsSegment ⟨offset, word.toBytes ++ rest⟩
        (.error (.truncatedPayload (offset + width) size rest.length), ⟨offset + width, rest⟩)

theorem readsSegment (r : Reader) : ReadsSegment r r.readSegment := by
  have first := r.readsLength
  rw [readSegment]
  generalize r.readLength = found at first
  cases first with
  | atEnd => exact .atEnd
  | short some short => exact .shortWord some short
  | @item offset word rest =>
      cases size : word.payloadSize? with
      | none =>
          have null : SpellsSegment ReadAsNull none word.toBytes :=
            .null (payloadSize?_eq_none_iff.mp size)
          simp only [size]
          exact .item null
      | some n =>
          simp only [readBytes, size]
          cases cut : rest.cut? n with
          | none =>
              rw [Bytes.cut?_eq_none_iff] at cut
              exact .shortPayload size cut
          | some found =>
              obtain ⟨payload, rest⟩ := found
              obtain ⟨rfl, rfl⟩ := Bytes.cut?_eq_some_iff.mp cut
              have step := @ReadsSegment.item offset _ _ rest
                (.payload (ofSize?_of_payloadSize? size))
              simpa only [List.append_assoc, List.length_append, length_toBytes,
                Nat.add_assoc] using step

/-- A length word whose payload is cut short is passed all the same. -/
theorem readSegment_of_broken {r : Reader} {word : LengthWord} {size : Nat} {rest : Bytes}
    (present : word.payloadSize? = some size) (short : rest.length < size)
    (here : r.rest = word.toBytes ++ rest) :
    r.readSegment =
      (.error (.truncatedPayload (r.offset + width) size rest.length),
        ⟨r.offset + width, rest⟩) := by
  obtain ⟨offset, bytes⟩ := r
  subst here
  have cut : rest.cut? size = none := Bytes.cut?_eq_none_iff.mpr short
  simp only [readSegment, readLength_toBytes, present, readBytes, cut, remaining]

end Reader

namespace Spells

variable {blob : Bytes}

theorem mono {wider : LengthWord → Prop} (sub : ∀ word, nulls word → wider word)
    (h : Spells nulls segments blob) : Spells wider segments blob := by
  induction h with
  | nil => exact .nil
  | cons first _ ih => exact .cons (first.mono sub) ih

/-- What is written is also what may be read. -/
theorem readable (h : Spells WrittenAsNull segments blob) : Spells ReadAsNull segments blob :=
  h.mono fun _ => WrittenAsNull.readAsNull

theorem isEmpty_eq (h : Spells nulls segments blob) : blob.isEmpty = segments.isEmpty := by
  cases h with
  | nil => rfl
  | cons first _ =>
      rw [List.isEmpty_cons, List.isEmpty_eq_false_iff]
      exact List.append_ne_nil_of_left_ne_nil first.ne_nil _

theorem eq_nil_iff (h : Spells nulls segments blob) : blob = [] ↔ segments = [] := by
  rw [← List.isEmpty_iff, h.isEmpty_eq, List.isEmpty_iff]

/-- Where one word stands for a null, a list of segments has one spelling. -/
theorem eq_of_written {other : Bytes} (h : Spells WrittenAsNull segments blob)
    (h' : Spells WrittenAsNull segments other) : blob = other := by
  induction h generalizing other with
  | nil =>
      cases h' with
      | nil => rfl
  | cons first _ ih =>
      cases h' with
      | cons first' others' => rw [first.eq_of_written first', ih others']

/-- A count of segments is read off the front, or all of them where there are fewer. -/
theorem segments_take (h : Spells ReadAsNull segments blob) (count offset : Nat) :
    Reader.segments count ⟨offset, blob⟩ = .ok (segments.take count) := by
  induction h generalizing count offset with
  | nil => cases count <;> rfl
  | cons first _ ih =>
      cases count with
      | zero => rfl
      | succ count =>
          simp only [Reader.segments, Reader.next, first.readSegment, ih, Except.map,
            List.take_succ_cons]

theorem split_eq (h : Spells ReadAsNull segments blob) {arity : Nat}
    (enough : segments.length ≤ arity) : split arity blob = .ok segments := by
  rw [split, Reader.start, h.segments_take, List.take_of_length_le enough]

/-- A blob spells one list of segments at most. -/
theorem unique {others : List Segment} (h : Spells ReadAsNull segments blob)
    (h' : Spells ReadAsNull others blob) : segments = others := by
  have left := h.split_eq (Nat.le_max_left segments.length others.length)
  have right := h'.split_eq (Nat.le_max_right segments.length others.length)
  exact Except.ok.inj (left.symm.trans right)

/-- A blob of segments can be cut between two of them. -/
theorem exists_append {others : List Segment} (h : Spells nulls (segments ++ others) blob) :
    ∃ front rest, blob = front ++ rest ∧ Spells nulls segments front ∧
      Spells nulls others rest := by
  induction segments generalizing blob with
  | nil => exact ⟨[], blob, rfl, .nil, h⟩
  | cons segment segments ih =>
      cases h with
      | cons first later =>
          obtain ⟨front, rest, rfl, before, behind⟩ := ih later
          exact ⟨_, rest, (List.append_assoc _ front rest).symm, .cons first before, behind⟩

/-- Scanning for nulls tells whether all segments are nulls. -/
theorem skipNulls_eq (h : Spells ReadAsNull segments blob) (offset : Nat) :
    (Reader.skipNulls ⟨offset, blob⟩).1 = .ok (segments.all Option.isNone) := by
  induction h generalizing offset with
  | nil => rfl
  | cons first _ ih =>
      rw [Reader.skipNulls_eq]
      cases first with
      | null hnull =>
          simp only [Reader.readLength_toBytes, ReadAsNull] at hnull ⊢
          simp only [hnull, if_true, ih, List.all_cons, Option.isNone_none, Bool.true_and]
      | payload hword =>
          have present := payloadSize?_of_ofSize? hword
          simp only [payloadSize?, Option.ite_none_left_eq_some] at present
          simp only [List.append_assoc, Reader.readLength_toBytes, present.1, if_false,
            List.all_cons, Option.isNone_some, Bool.false_and, Bool.false_eq_true]

end Spells

/-- Splitting reads whole segments off the front. -/
theorem spells_of_segments {count offset : Nat} {blob : Bytes}
    (read : Reader.segments count ⟨offset, blob⟩ = .ok segments) :
    segments.length ≤ count ∧
      ∃ front rest, blob = front ++ rest ∧ Spells ReadAsNull segments front := by
  induction count generalizing offset blob segments with
  | zero =>
      cases read
      exact ⟨Nat.le_refl 0, [], blob, rfl, .nil⟩
  | succ count ih =>
      have step := Reader.readsSegment ⟨offset, blob⟩
      simp only [Reader.segments, Reader.next] at read
      generalize Reader.readSegment ⟨offset, blob⟩ = found at read step
      cases step with
      | shortWord | shortPayload => cases read
      | atEnd =>
          cases read
          exact ⟨Nat.zero_le _, [], [], rfl, .nil⟩
      | item first =>
          obtain ⟨others, more, rfl⟩ := map_eq_ok_iff.mp read
          obtain ⟨few, front, rest, rfl, spelled⟩ := ih more
          refine ⟨Nat.succ_le_succ few, _, rest, ?_, .cons first spelled⟩
          rw [List.append_assoc]

theorem length_le_of_split {arity : Nat} {blob : Bytes}
    (read : split arity blob = .ok segments) : segments.length ≤ arity :=
  (spells_of_segments read).1

/-- Components that have spellings are written as them, nulls by the one word for them, and
writing goes on with the components after them. -/
theorem Spells.writeFrom_append {blob : Bytes} (h : Spells WrittenAsNull segments blob)
    (others : List (Option Payload)) (index count : Nat) (written : Bytes) :
    Sink.writeFrom index count (segments.map (Option.map .bytes) ++ others) ⟨none, written⟩ =
      Sink.writeFrom (index + segments.length) (count + blob.length) others
        ⟨none, written ++ blob⟩ := by
  induction h generalizing index count written with
  | nil => simp only [List.map_nil, List.nil_append, List.length_nil, Nat.add_zero,
      List.append_nil]
  | cons first _ ih =>
      cases first with
      | null hnull =>
          cases hnull
          simp only [List.map_cons, Option.map_none, List.cons_append, Sink.writeFrom,
            Sink.writeComponent, Sink.write, Payload.toBytes, ih, List.length_cons,
            List.length_append, length_toBytes, List.append_assoc, Nat.add_assoc, Nat.add_comm 1]
      | payload hword =>
          simp only [List.map_cons, Option.map_some, List.cons_append, Sink.writeFrom,
            Sink.writeComponent, Payload.size, Sink.lengthWord, hword, Sink.write,
            Payload.toBytes, ih, List.length_cons, List.length_append, length_toBytes,
            List.append_assoc, Nat.add_assoc, Nat.add_comm 1]

theorem Spells.encodeSegments_eq {blob : Bytes} (h : Spells WrittenAsNull segments blob) :
    encodeSegments segments = .ok blob := by
  have writing := h.writeFrom_append [] 0 0 []
  rw [List.append_nil] at writing
  simp only [encodeSegments, encode, Sink.writeComponents, Sink.unbounded, writing,
    Sink.writeFrom, List.nil_append]

end TupleBlob
