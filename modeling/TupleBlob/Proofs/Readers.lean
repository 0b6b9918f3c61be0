import TupleBlob.Proofs.Spelling
import TupleBlob.Session

/-! # Readers account for every byte

A reader stands somewhere in its blob, also behind a read that has failed, where the bytes of a
payload may be taken for a length word. Main statement: at every call of every session, whatever
was called before, all readers stand in the blob and none but the current one has moved; what a
read reports is what the reader has gone forward by, its payload is what stands before the reader,
and the place that a fault names is counted from the start of the blob.
-/

namespace TupleBlob

open LengthWord

/-! ## Places in a blob -/

namespace Reader

variable {blob : Bytes} {offset : Nat} {front rest : Bytes}

/-- The reader stands in the blob, and the bytes from there on are left. -/
structure Within (blob : Bytes) (r : Reader) : Prop where
  offset_le : r.offset ≤ blob.length
  rest_eq : r.rest = blob.drop r.offset

theorem within_start (blob : Bytes) : (start blob).Within blob where
  offset_le := Nat.zero_le _
  rest_eq := rfl

theorem Within.offset_add_remaining {r : Reader} (h : r.Within blob) :
    r.offset + r.remaining = blob.length := by
  have bounded := h.offset_le
  rw [remaining, h.rest_eq, List.length_drop]
  omega

theorem Within.advance (h : Within blob ⟨offset, front ++ rest⟩) :
    Within blob ⟨offset + front.length, rest⟩ where
  offset_le := by
    have whole := h.offset_add_remaining
    simp only [remaining, List.length_append] at whole
    show offset + front.length ≤ blob.length
    omega
  rest_eq := by
    have left : front ++ rest = blob.drop offset := h.rest_eq
    show rest = blob.drop (offset + front.length)
    rw [← List.drop_drop, ← left, List.drop_left]

/-- The bytes that a reader has passed stand right before it. -/
theorem Within.suffix_take (h : Within blob ⟨offset, front ++ rest⟩) :
    front <:+ blob.take (offset + front.length) := by
  have left : front ++ rest = blob.drop offset := h.rest_eq
  rw [List.take_add, ← left, List.take_left]
  exact List.suffix_append _ _

end Reader

/-- The place that a truncation names and the bytes from there on make up the blob. -/
def Fault.PlacedIn (blob : Bytes) : Fault → Prop
  | truncatedLength offset remaining => offset + remaining = blob.length
  | truncatedPayload offset _ remaining => offset + remaining = blob.length
  | _ => True

/-! ## What an answer tells -/

/-- The number of bytes that a read reports; there are none to report at the end. -/
def Found.size {α : Type} : Found α → Nat
  | .atEnd => 0
  | .item size _ => size

namespace Answer

def of {α : Type} (wrap : α → Answer) : Except Fault α → Answer
  | .ok value => wrap value
  | .error cause => .fault cause

theorem error_of_fault {α : Type} {wrap : α → Answer} {read : Except Fault α} {cause : Fault}
    (told : of wrap read = .fault cause) (answers : ∀ value, wrap value ≠ .fault cause) :
    read = .error cause := by
  cases read with
  | ok value => exact absurd told (answers value)
  | error =>
      cases told
      rfl

theorem of_cases {α : Type} {wrap : α → Answer} {read : Except Fault α} {p : Answer → Prop}
    (ok : ∀ value, read = .ok value → p (wrap value)) :
    p (of wrap read) ∨ ∃ cause, of wrap read = .fault cause := by
  cases read with
  | ok value => exact .inl (ok value rfl)
  | error cause => exact .inr ⟨cause, rfl⟩

/-- The number of bytes read, where the answer tells it. -/
def size? : Answer → Option Nat
  | .word found => some found.size
  | .bytes value => some value.length
  | .segment found => some found.size
  | _ => none

def payload? : Answer → Option Bytes
  | .bytes value => some value
  | .segment (.item _ value) => value
  | .next value => value.join
  | _ => none

end Answer

/-- A read of the blob takes a reader from one place to another, and its answer accounts for the
bytes between them. -/
structure Moves (blob : Bytes) (before : Reader) (answer : Answer) (after : Reader) : Prop where
  within : after.Within blob
  remaining_le : after.remaining ≤ before.remaining
  counted : ∀ size, answer.size? = some size → after.remaining + size = before.remaining
  passed : ∀ payload, answer.payload? = some payload → payload <:+ blob.take after.offset
  placed : ∀ cause, answer = .fault cause → cause.PlacedIn blob

namespace Moves

variable {blob : Bytes} {r after : Reader} {answer : Answer}

theorem fault {cause : Fault} (within : after.Within blob)
    (forward : after.remaining ≤ r.remaining) (placed : cause.PlacedIn blob) :
    Moves blob r (.fault cause) after where
  within := within
  remaining_le := forward
  counted _ told := by cases told
  passed _ told := by cases told
  placed _ same := by
    cases same
    exact placed

/-- A read that finds nothing leaves the reader at its place. -/
theorem stay (within : r.Within blob) (size : ∀ n, answer.size? = some n → n = 0)
    (payload : answer.payload? = none) (found : ∀ cause, answer ≠ .fault cause) :
    Moves blob r answer r where
  within := within
  remaining_le := Nat.le_refl _
  counted n told := by rw [size n told, Nat.add_zero]
  passed _ told := by
    rw [payload] at told
    cases told
  placed cause same := absurd same (found cause)

/-- A read passes the bytes that its answer counts, and its payload ends them. -/
theorem pass {offset : Nat} {front rest : Bytes}
    (within : Reader.Within blob ⟨offset, front ++ rest⟩)
    (size : ∀ n, answer.size? = some n → n = front.length)
    (payload : ∀ value, answer.payload? = some value → value <:+ front)
    (found : ∀ cause, answer ≠ .fault cause) :
    Moves blob ⟨offset, front ++ rest⟩ answer ⟨offset + front.length, rest⟩ where
  within := within.advance
  remaining_le := by
    simp only [Reader.remaining, List.length_append]
    omega
  counted n told := by
    rw [size n told]
    simp only [Reader.remaining, List.length_append]
    omega
  passed value told := (payload value told).trans within.suffix_take
  placed cause same := absurd same (found cause)

/-- A read that counts no bytes leaves the reader anywhere further on. -/
theorem found (within : after.Within blob) (forward : after.remaining ≤ r.remaining)
    (uncounted : answer.size? = none)
    (payload : ∀ value, answer.payload? = some value → value <:+ blob.take after.offset)
    (found : ∀ cause, answer ≠ .fault cause) : Moves blob r answer after where
  within := within
  remaining_le := forward
  counted _ told := by
    rw [uncounted] at told
    cases told
  passed := payload
  placed cause same := absurd same (found cause)

/-- A read that counts no bytes may go on from a place further on. -/
theorem later {mid : Reader} (h : Moves blob mid answer after)
    (forward : mid.remaining ≤ r.remaining) (uncounted : answer.size? = none) :
    Moves blob r answer after where
  within := h.within
  remaining_le := Nat.le_trans h.remaining_le forward
  counted _ told := by
    rw [uncounted] at told
    cases told
  passed := h.passed
  placed := h.placed

end Moves

section Reads

variable {blob : Bytes} {r : Reader}

theorem moves_readLength (within : r.Within blob) :
    Moves blob r (.of .word r.readLength.1) r.readLength.2 := by
  have step := r.readsLength
  generalize r.readLength = found at step
  cases step with
  | atEnd =>
      apply Moves.stay within _ rfl fun _ => Answer.noConfusion
      simp [Answer.of, Answer.size?, Found.size]
  | item =>
      apply Moves.pass within _ _ fun _ => Answer.noConfusion
      · simp [Answer.of, Answer.size?, Found.size]
      · simp [Answer.of, Answer.payload?]
  | short => exact .fault within (Nat.le_refl _) within.offset_add_remaining

theorem moves_readBytes (n : Nat) (within : r.Within blob) :
    Moves blob r (.of .bytes (r.readBytes n).1) (r.readBytes n).2 := by
  obtain ⟨offset, left⟩ := r
  simp only [Reader.readBytes]
  cases cut : left.cut? n with
  | none => exact .fault within (Nat.le_refl _) within.offset_add_remaining
  | some found =>
      obtain ⟨value, rest⟩ := found
      obtain ⟨rfl, rfl⟩ := Bytes.cut?_eq_some_iff.mp cut
      apply Moves.pass within _ _ fun _ => Answer.noConfusion
      · simp [Answer.of, Answer.size?]
      · intro payload told
        cases told
        exact List.suffix_rfl

theorem stays_of_readLength {cause : Fault} (failed : r.readLength.1 = .error cause) :
    r.readLength.2 = r := by
  have step := r.readsLength
  generalize r.readLength = found at step failed
  cases step with
  | atEnd | short => rfl
  | item => cases failed

theorem stays_of_readBytes {n : Nat} {cause : Fault} (failed : (r.readBytes n).1 = .error cause) :
    (r.readBytes n).2 = r := by
  simp only [Reader.readBytes] at failed ⊢
  split at failed
  · cases failed
  · rfl

theorem length_of_readBytes {n : Nat} {value : Bytes} (read : (r.readBytes n).1 = .ok value) :
    value.length = n := by
  simp only [Reader.readBytes] at read
  split at read
  · rename_i cut
    cases read
    exact (Bytes.cut?_eq_some_iff.mp cut).2
  · cases read

theorem suffix_of_spells {payload front : Bytes}
    (spelled : SpellsSegment ReadAsNull (some payload) front) : payload <:+ front := by
  cases spelled with
  | payload => exact List.suffix_append _ _

/-- Where the payload is cut short, the reader has passed the length word. -/
theorem moves_readSegment (within : r.Within blob) :
    Moves blob r (.of .segment r.readSegment.1) r.readSegment.2 := by
  have step := r.readsSegment
  generalize r.readSegment = found at step
  cases step with
  | atEnd =>
      apply Moves.stay within _ rfl fun _ => Answer.noConfusion
      simp [Answer.of, Answer.size?, Found.size]
  | shortWord => exact .fault within (Nat.le_refl _) within.offset_add_remaining
  | shortPayload =>
      have passed := within.advance
      refine .fault passed ?_ passed.offset_add_remaining
      simp only [Reader.remaining, List.length_append]
      omega
  | item spelled =>
      apply Moves.pass within _ _ fun _ => Answer.noConfusion
      · simp [Answer.of, Answer.size?, Found.size]
      · rintro payload rfl
        exact suffix_of_spells spelled

theorem moves_next (within : r.Within blob) :
    Moves blob r (.of .next r.next.1) r.next.2 := by
  have moves := moves_readSegment within
  rw [Reader.next]
  generalize r.readSegment = found at moves
  obtain ⟨_ | _ | ⟨size, segment⟩, after⟩ := found
  · exact moves
  · apply Moves.found moves.within moves.remaining_le rfl _ fun _ => Answer.noConfusion
    simp [Answer.of, Answer.payload?]
  · apply Moves.found moves.within moves.remaining_le rfl _ fun _ => Answer.noConfusion
    intro payload told
    exact moves.passed payload told

theorem size?_of_flag (found : Except Fault Bool) : (Answer.of .flag found).size? = none := by
  cases found <;> rfl

/-- Skipping nulls is reading words, so it only ever goes forward. -/
theorem moves_skipNulls (within : r.Within blob) :
    Moves blob r (.of .flag r.skipNulls.1) r.skipNulls.2 := by
  induction left : r.remaining using Nat.strongRecOn generalizing r with
  | ind n ih =>
      subst left
      have step := r.readsLength
      rw [Reader.skipNulls_eq]
      generalize r.readLength = found at step
      cases step with
      | atEnd =>
          apply Moves.stay within _ rfl fun _ => Answer.noConfusion
          simp [Answer.of, Answer.size?]
      | short => exact .fault within (Nat.le_refl _) within.offset_add_remaining
      | @item offset word rest =>
          have forward : rest.length < (word.toBytes ++ rest).length := by
            simp only [List.length_append, length_toBytes, width]
            omega
          dsimp only
          split
          · have others := ih rest.length forward within.advance rfl
            exact others.later (Nat.le_of_lt forward) (size?_of_flag _)
          · apply Moves.pass within _ _ fun _ => Answer.noConfusion
            · simp [Answer.of, Answer.size?]
            · simp [Answer.of, Answer.payload?]

end Reads

/-! ## Sessions -/

/-- The call reads nothing. -/
def Call.Quiet (c : Call) : Prop := c = .hasRemaining ∨ c = .copy ∨ ∃ index, c = .use index

/-- The answer is of the sort that the call asks for. -/
def Call.Asks : Call → Answer → Prop
  | .hasRemaining, .flag _ | .skipNulls, .flag _ | .readLength, .word _ => True
  | .readSegment, .segment _ | .next, .next _ | .copy, .index _ => True
  | .readBytes n, .bytes value => value.length = n
  | .use index, .index found | .use index, .noReader found => found = index
  | _, _ => False

/-- The answer counts no bytes, shows none, and is no fault. -/
structure Answer.Silent (answer : Answer) : Prop where
  size?_eq : answer.size? = none
  payload?_eq : answer.payload? = none
  ne_fault : ∀ cause, answer ≠ .fault cause

namespace Session

variable {blob : Bytes} {s : Session} {c : Call} {answer : Answer} {r : Reader}

/-- What a call does to the readers of the blob, and what its answer tells. -/
structure Accounted (blob : Bytes) (before : Session) (c : Call) (answer : Answer)
    (after : Session) : Prop where
  /-- All readers stand in the blob. -/
  within : ∀ r ∈ after.readers, r.Within blob
  /-- No reader has more bytes left than before. -/
  remaining_le : ∀ (i : Nat) (r r' : Reader), before.readers[i]? = some r →
    after.readers[i]? = some r' → r'.remaining ≤ r.remaining
  /-- No reader but the current one has moved. -/
  others : ∀ i : Nat, i < before.readers.length → i ≠ before.current →
    after.readers[i]? = before.readers[i]?
  /-- Only a read moves the current one; a copy comes behind all readers. -/
  kept : c.Quiet → after.readers = before.readers ++ if c = .copy then [before.reader] else []
  /-- A call is answered as it asks, or by a fault. -/
  told : c.Asks answer ∨ ∃ cause, answer = .fault cause
  /-- The current reader has gone forward by the number of bytes that the answer counts. -/
  counted : ∀ size, answer.size? = some size →
    after.reader.remaining + size = before.reader.remaining
  /-- A payload is the bytes of the blob that end where the reader stands. -/
  passed : ∀ payload, answer.payload? = some payload → payload <:+ blob.take after.reader.offset
  /-- To read a word or bytes and fail leaves the reader at its place. -/
  stayed : ∀ cause, answer = .fault cause → c = .readLength ∨ (∃ n, c = .readBytes n) →
    after.reader = before.reader
  /-- A truncation is placed in the whole blob. -/
  placed : ∀ cause, answer = .fault cause → cause.PlacedIn blob

theorem answer_eq {α : Type} (s : Session) (wrap : α → Answer) (read : Except Fault α × Reader) :
    s.answer wrap read = (.of wrap read.1, s.setReader read.2) := by
  obtain ⟨_ | _, _⟩ := read <;> rfl

/-- A read of the current reader is accounted for by where it takes that reader. -/
theorem accounted_of_moves (within : ∀ r ∈ s.readers, r.Within blob)
    (moves : Moves blob s.reader answer r) (reads : ¬c.Quiet)
    (told : c.Asks answer ∨ ∃ cause, answer = .fault cause)
    (stayed : ∀ cause, answer = .fault cause → c = .readLength ∨ (∃ n, c = .readBytes n) →
      r = s.reader) :
    Accounted blob s c answer (s.setReader r) where
  within := by
    intro r' member
    rcases List.mem_or_eq_of_mem_set member with old | rfl
    · exact within r' old
    · exact moves.within
  remaining_le := by
    intro i r₁ r₂ before after
    by_cases current : i = s.current
    · subst current
      have first : s.readers[s.current]? = some s.reader := List.getElem?_eq_getElem s.current_lt
      rw [setReader, List.getElem?_set_self s.current_lt] at after
      rw [first] at before
      cases before
      cases after
      exact moves.remaining_le
    · rw [setReader, List.getElem?_set_ne (Ne.symm current), before] at after
      cases after
      exact Nat.le_refl _
  others := by
    intro i _ other
    rw [setReader, List.getElem?_set_ne (Ne.symm other)]
  kept quiet := absurd quiet reads
  told := told
  counted size told := by
    rw [reader_setReader]
    exact moves.counted size told
  passed payload told := by
    rw [reader_setReader]
    exact moves.passed payload told
  stayed cause told called := by
    rw [reader_setReader]
    exact stayed cause told called
  placed := moves.placed

/-- A call that reads nothing leaves all readers as they are, and may add a copy of one. -/
theorem accounted_of_quiet {after : Session} (within : ∀ r ∈ s.readers, r.Within blob)
    (kept : after.readers = s.readers ++ if c = .copy then [s.reader] else [])
    (silent : answer.Silent) (told : c.Asks answer) : Accounted blob s c answer after where
  within := by
    intro r member
    rw [kept, List.mem_append] at member
    rcases member with old | copied
    · exact within r old
    · split at copied
      · rw [List.mem_singleton.mp copied]
        exact within s.reader (List.getElem_mem s.current_lt)
      · cases copied
  remaining_le := by
    intro i r r' before after
    have reached := (List.getElem?_eq_some_iff.mp before).1
    rw [kept, List.getElem?_append_left reached, before] at after
    cases after
    exact Nat.le_refl _
  others i reached _ := by rw [kept, List.getElem?_append_left reached]
  kept _ := kept
  told := .inl told
  counted size told := by
    rw [silent.size?_eq] at told
    cases told
  passed payload told := by
    rw [silent.payload?_eq] at told
    cases told
  stayed cause told := absurd told (silent.ne_fault cause)
  placed cause told := absurd told (silent.ne_fault cause)

theorem call_accounted (within : ∀ r ∈ s.readers, r.Within blob) (c : Call) :
    Accounted blob s c (s.call c).1 (s.call c).2 := by
  have here : s.reader.Within blob := within s.reader (List.getElem_mem s.current_lt)
  cases c with
  | hasRemaining =>
      apply accounted_of_quiet within (List.append_nil _).symm
      · exact ⟨rfl, rfl, fun _ => Answer.noConfusion⟩
      · trivial
  | copy =>
      apply accounted_of_quiet within rfl
      · exact ⟨rfl, rfl, fun _ => Answer.noConfusion⟩
      · trivial
  | use index =>
      rw [call]
      split
      · apply accounted_of_quiet within (List.append_nil _).symm
        · exact ⟨rfl, rfl, fun _ => Answer.noConfusion⟩
        · rfl
      · apply accounted_of_quiet within (List.append_nil _).symm
        · exact ⟨rfl, rfl, fun _ => Answer.noConfusion⟩
        · rfl
  | readLength =>
      rw [call, answer_eq]
      apply accounted_of_moves within (moves_readLength here)
      · simp [Call.Quiet]
      · exact Answer.of_cases fun _ _ => trivial
      · intro cause told _
        exact stays_of_readLength (Answer.error_of_fault told fun _ => Answer.noConfusion)
  | readBytes n =>
      rw [call, answer_eq]
      apply accounted_of_moves within (moves_readBytes n here)
      · simp [Call.Quiet]
      · exact Answer.of_cases fun value read => length_of_readBytes read
      · intro cause told _
        exact stays_of_readBytes (Answer.error_of_fault told fun _ => Answer.noConfusion)
  | readSegment =>
      rw [call, answer_eq]
      apply accounted_of_moves within (moves_readSegment here)
      · simp [Call.Quiet]
      · exact Answer.of_cases fun _ _ => trivial
      · simp
  | next =>
      rw [call, answer_eq]
      apply accounted_of_moves within (moves_next here)
      · simp [Call.Quiet]
      · exact Answer.of_cases fun _ _ => trivial
      · simp
  | skipNulls =>
      rw [call, answer_eq]
      apply accounted_of_moves within (moves_skipNulls here)
      · simp [Call.Quiet]
      · exact Answer.of_cases fun _ _ => trivial
      · simp

/-- The session that calls lead to. -/
def after (s : Session) (calls : List Call) : Session :=
  calls.foldl (fun s c => (s.call c).2) s

theorem run_append (s : Session) (earlier later : List Call) :
    s.run (earlier ++ later) = s.run earlier ++ (s.after earlier).run later := by
  induction earlier generalizing s with
  | nil => rfl
  | cons c earlier ih =>
      simp only [List.cons_append, run, ih, after, List.foldl_cons]

theorem within_after (within : ∀ r ∈ s.readers, r.Within blob) (calls : List Call) :
    ∀ r ∈ (s.after calls).readers, r.Within blob := by
  induction calls generalizing s with
  | nil => exact within
  | cons c calls ih => exact ih (call_accounted within c).within

/-- Whatever was called before, a call of a session over a blob is accounted for, and the session
reports its answer and goes on from the readers that it left. -/
theorem run_accounted (blob : Bytes) (earlier : List Call) (c : Call) (later : List Call) :
    let before := (start blob).after earlier
    Accounted blob before c (before.call c).1 (before.call c).2 ∧
    (start blob).run (earlier ++ c :: later) =
      (start blob).run earlier ++
        ((before.call c).1, (before.call c).2.reader.remaining) :: (before.call c).2.run later := by
  have within : ∀ r ∈ (start blob).readers, r.Within blob := by
    intro r member
    rw [List.mem_singleton.mp member]
    exact Reader.within_start blob
  refine ⟨call_accounted (within_after within earlier) c, ?_⟩
  rw [run_append, run]

end Session

end TupleBlob
