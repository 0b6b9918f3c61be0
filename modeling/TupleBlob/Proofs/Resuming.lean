import TupleBlob.Proofs.Readers
import TupleBlob.Proofs.Truncation

/-! # Reading on behind a fault

A reader may be called again after it has failed. A length word that is cut short holds it at its
place for good. Where a payload is cut short, the reader has passed the length word, and reads on
from the bytes that there are of the payload. What is left over in the end is the same from read to
read. Main statement: the end of a blob is found without a fault before it exactly where the blob is
whole segments, and found at some time exactly where nothing is left over.
-/

namespace TupleBlob

open LengthWord

theorem SpellsSegment.width_le_length {segment : Segment} {front : Bytes}
    (h : SpellsSegment ReadAsNull segment front) : width ≤ front.length := by
  cases h with
  | null => exact Nat.le_refl width
  | payload =>
      rw [List.length_append, length_toBytes]
      exact Nat.le_add_right width _

/-- What is left of the bytes when segment after segment is read from them: up to three bytes,
behind whole segments and behind length words that announce more bytes than follow. -/
inductive LeavesOver : (bytes left : Bytes) → Prop
  | short {left} (few : left.length < width) : LeavesOver left left
  | segment {segment front rest left} (spelled : SpellsSegment ReadAsNull segment front)
      (others : LeavesOver rest left) : LeavesOver (front ++ rest) left
  | broken {word size rest left} (present : payloadSize? word = some size)
      (short : rest.length < size) (others : LeavesOver rest left) :
      LeavesOver (word.toBytes ++ rest) left

namespace Reader

variable {r : Reader} {left : Bytes}

/-! ## One read -/

theorem snd_next (r : Reader) : r.next.2 = r.readSegment.2 := by
  rw [next]
  obtain ⟨_ | _ | _, _⟩ := r.readSegment <;> rfl

theorem next_eq_error_iff {cause : Fault} :
    r.next.1 = .error cause ↔ r.readSegment.1 = .error cause := by
  rw [next]
  obtain ⟨_ | _ | _, _⟩ := r.readSegment <;> simp

theorem next_eq_none_iff : r.next.1 = .ok none ↔ r.readSegment.1 = .ok .atEnd := by
  rw [next]
  obtain ⟨_ | _ | _, _⟩ := r.readSegment <;> simp

theorem readSegment_eq_atEnd_iff : r.readSegment.1 = .ok .atEnd ↔ r.rest = [] := by
  have step := r.readsSegment
  generalize r.readSegment = found at step
  cases step with
  | atEnd => simp
  | shortWord some => simp [some]
  | item spelled => simp [spelled.ne_nil]
  | shortPayload => simp [toBytes, Word.toBytes]

theorem readSegment_of_spells {segment : Segment} {front rest : Bytes}
    (spelled : SpellsSegment ReadAsNull segment front) (here : r.rest = front ++ rest) :
    r.readSegment = (.ok (.item front.length segment), ⟨r.offset + front.length, rest⟩) := by
  obtain ⟨offset, bytes⟩ := r
  subst here
  exact spelled.readSegment offset rest

/-- Where there is no room for a length word, a reader stays. -/
theorem snd_readSegment_of_short (few : r.remaining < width) : r.readSegment.2 = r := by
  have step := r.readsSegment
  generalize r.readSegment = found at step
  cases step with
  | atEnd | shortWord => rfl
  | item spelled =>
      have wide := spelled.width_le_length
      simp only [remaining, List.length_append] at few
      omega
  | shortPayload =>
      simp only [remaining, List.length_append, length_toBytes] at few
      omega

/-- Whether a read fails or not, it does not change what is left over. -/
theorem leavesOver_readSegment_iff :
    LeavesOver r.readSegment.2.rest left ↔ LeavesOver r.rest left := by
  constructor
  · intro later
    have step := r.readsSegment
    generalize r.readSegment = found at step later
    cases step with
    | atEnd | shortWord => exact later
    | item spelled => exact .segment spelled later
    | shortPayload present short => exact .broken present short later
  · intro later
    generalize here : r.rest = bytes at later
    cases later with
    | short few =>
        rw [← here] at few ⊢
        rw [snd_readSegment_of_short few]
        exact .short few
    | segment spelled others =>
        rw [readSegment_of_spells spelled here]
        exact others
    | broken present short others =>
        rw [readSegment_of_broken present short here]
        exact others

end Reader

namespace LeavesOver

variable {bytes left : Bytes}

theorem length_lt (h : LeavesOver bytes left) : left.length < width := by
  induction h with
  | short few => exact few
  | segment _ _ ih | broken _ _ _ ih => exact ih

theorem eq_of_short (h : LeavesOver bytes left) (few : bytes.length < width) : left = bytes := by
  cases h with
  | short => rfl
  | segment spelled =>
      have wide := spelled.width_le_length
      rw [List.length_append] at few
      omega
  | broken =>
      rw [List.length_append, length_toBytes] at few
      omega

theorem unique {other : Bytes} (h : LeavesOver bytes left) (h' : LeavesOver bytes other) :
    left = other := by
  induction h with
  | short few => exact (h'.eq_of_short few).symm
  | @segment _ front rest _ spelled _ ih =>
      have later := (Reader.leavesOver_readSegment_iff (r := ⟨0, front ++ rest⟩)).mpr h'
      rw [Reader.readSegment_of_spells spelled rfl] at later
      exact ih later
  | @broken word _ rest _ present short _ ih =>
      have later := (Reader.leavesOver_readSegment_iff (r := ⟨0, word.toBytes ++ rest⟩)).mpr h'
      rw [Reader.readSegment_of_broken present short rfl] at later
      exact ih later

end LeavesOver

theorem exists_leavesOver (bytes : Bytes) : ∃ left, LeavesOver bytes left := by
  induction size : bytes.length using Nat.strongRecOn generalizing bytes with
  | ind n ih =>
      subst size
      have step := Reader.readsSegment ⟨0, bytes⟩
      generalize Reader.readSegment ⟨0, bytes⟩ = found at step
      cases step with
      | atEnd => exact ⟨[], .short (by decide)⟩
      | shortWord _ short => exact ⟨bytes, .short short⟩
      | @item _ _ front rest spelled =>
          have wide := spelled.width_le_length
          have less : rest.length < (front ++ rest).length := by
            simp only [List.length_append, width] at wide ⊢
            omega
          obtain ⟨left, others⟩ := ih _ less rest rfl
          exact ⟨left, .segment spelled others⟩
      | @shortPayload _ word _ rest present short =>
          have less : rest.length < (word.toBytes ++ rest).length := by
            simp only [List.length_append, length_toBytes, width]
            omega
          obtain ⟨left, others⟩ := ih _ less rest rfl
          exact ⟨left, .broken present short others⟩

/-! ## Call after call -/

/-- The call takes the next segment. -/
def Call.TakesSegment (c : Call) : Prop := c = .next ∨ c = .readSegment

/-- The answer tells that the reader stands at the end. -/
def Answer.IsEnd (answer : Answer) : Prop := answer = .next none ∨ answer = .segment .atEnd

theorem Answer.IsEnd.ne_fault {answer : Answer} (h : answer.IsEnd) (cause : Fault) :
    answer ≠ .fault cause := by
  rcases h with rfl | rfl
  · exact Answer.noConfusion
  · exact Answer.noConfusion

namespace Session

/-- The calls are for the next segment, one after the other, and one of them finds the end. -/
def FindsEnd (s : Session) (calls : List Call) : Prop :=
  (∀ c ∈ calls, c.TakesSegment) ∧ ∃ reply ∈ s.run calls, reply.1.IsEnd

variable {s : Session} {c : Call} {calls : List Call} {left : Bytes}

theorem call_takesSegment (takes : c.TakesSegment) :
    (s.call c).2.reader = s.reader.readSegment.2 := by
  rcases takes with rfl | rfl
  · rw [call, answer_eq, reader_setReader, Reader.snd_next]
  · rw [call, answer_eq, reader_setReader]

theorem call_eq_fault_iff (takes : c.TakesSegment) {cause : Fault} :
    (s.call c).1 = .fault cause ↔ s.reader.readSegment.1 = .error cause := by
  rcases takes with rfl | rfl
  · rw [call, answer_eq, ← Reader.next_eq_error_iff]
    cases s.reader.next.1 <;> simp [Answer.of]
  · rw [call, answer_eq]
    cases s.reader.readSegment.1 <;> simp [Answer.of]

theorem isEnd_call_iff (takes : c.TakesSegment) :
    (s.call c).1.IsEnd ↔ s.reader.rest = [] := by
  rw [← Reader.readSegment_eq_atEnd_iff]
  rcases takes with rfl | rfl
  · rw [call, answer_eq, ← Reader.next_eq_none_iff]
    cases s.reader.next.1 <;> simp [Answer.of, Answer.IsEnd]
  · rw [call, answer_eq]
    cases s.reader.readSegment.1 <;> simp [Answer.of, Answer.IsEnd]

theorem run_cons (s : Session) (c : Call) (calls : List Call) :
    s.run (c :: calls) =
      ((s.call c).1, (s.call c).2.reader.remaining) :: (s.call c).2.run calls := rfl

/-- Every reply of a session is the answer to one of the calls, and the bytes left behind it. -/
theorem exists_call_of_mem_run {reply : Answer × Nat} (member : reply ∈ s.run calls) :
    ∃ earlier c later, calls = earlier ++ c :: later ∧
      reply = (((s.after earlier).call c).1, ((s.after earlier).call c).2.reader.remaining) := by
  induction calls generalizing s with
  | nil => cases member
  | cons c calls ih =>
      rw [run_cons, List.mem_cons] at member
      rcases member with rfl | member
      · exact ⟨[], c, calls, rfl, rfl⟩
      · obtain ⟨earlier, c', later, rfl, rfl⟩ := ih member
        exact ⟨c :: earlier, c', later, rfl, rfl⟩

/-- What is left over in the end stays the same from call to call. -/
theorem leavesOver_after_iff (takes : ∀ c ∈ calls, c.TakesSegment) :
    LeavesOver (s.after calls).reader.rest left ↔ LeavesOver s.reader.rest left := by
  induction calls generalizing s with
  | nil => rfl
  | cons c calls ih =>
      obtain ⟨first, others⟩ := List.forall_mem_cons.mp takes
      have step : LeavesOver (s.call c).2.reader.rest left ↔ LeavesOver s.reader.rest left := by
        rw [call_takesSegment first]
        exact Reader.leavesOver_readSegment_iff
      exact (ih others).trans step

theorem reader_after_of_short (takes : ∀ c ∈ calls, c.TakesSegment)
    (few : s.reader.remaining < width) : (s.after calls).reader = s.reader := by
  induction calls generalizing s with
  | nil => rfl
  | cons c calls ih =>
      obtain ⟨first, others⟩ := List.forall_mem_cons.mp takes
      have stays : (s.call c).2.reader = s.reader := by
        rw [call_takesSegment first, Reader.snd_readSegment_of_short few]
      rw [← stays] at few
      exact (ih others few).trans stays

/-- A reader that finds no room for a length word gives the same reply to every later call. -/
theorem run_of_short (takes : ∀ c ∈ calls, c.TakesSegment) (few : s.reader.remaining < width)
    {cause : Fault} (failed : s.reader.readSegment.1 = .error cause) :
    ∀ reply ∈ s.run calls, reply = (.fault cause, s.reader.remaining) := by
  intro reply member
  obtain ⟨earlier, c, later, rfl, rfl⟩ := exists_call_of_mem_run member
  obtain ⟨before, here⟩ := List.forall_mem_append.mp takes
  have first : c.TakesSegment := here c List.mem_cons_self
  have same := reader_after_of_short before few
  have stays : ((s.after earlier).call c).2.reader = s.reader := by
    rw [call_takesSegment first, same, Reader.snd_readSegment_of_short few]
  rw [← same, ← call_eq_fault_iff first] at failed
  rw [failed, stays]

theorem findsEnd_next (ended : s.reader.rest = []) : s.FindsEnd [.next] := by
  have next : Call.TakesSegment .next := .inl rfl
  refine ⟨List.forall_mem_singleton.mpr next, _, List.mem_cons_self, ?_⟩
  exact (isEnd_call_iff next).mpr ended

theorem FindsEnd.next_cons (h : (s.call .next).2.FindsEnd calls) : s.FindsEnd (.next :: calls) := by
  obtain ⟨takes, reply, member, ended⟩ := h
  exact ⟨List.forall_mem_cons.mpr ⟨.inl rfl, takes⟩, reply, List.mem_cons_of_mem _ member, ended⟩

/-- The end is found at some time exactly when nothing is left over. -/
theorem exists_findsEnd_iff : (∃ calls, s.FindsEnd calls) ↔ LeavesOver s.reader.rest [] := by
  constructor
  · intro ⟨calls, takes, reply, member, ended⟩
    obtain ⟨earlier, c, later, rfl, rfl⟩ := exists_call_of_mem_run member
    obtain ⟨before, here⟩ := List.forall_mem_append.mp takes
    rw [isEnd_call_iff (here c List.mem_cons_self)] at ended
    rw [← leavesOver_after_iff before, ended]
    exact .short (by decide)
  · intro h
    generalize same : s.reader.rest = bytes at h
    generalize nothing : ([] : Bytes) = left at h
    induction h generalizing s with
    | short => exact ⟨[.next], findsEnd_next (same.trans nothing.symm)⟩
    | @segment _ _ rest _ spelled _ ih =>
        have behind : (s.call .next).2.reader.rest = rest := by
          rw [call_takesSegment (.inl rfl), Reader.readSegment_of_spells spelled same]
        obtain ⟨calls, ended⟩ := ih behind nothing
        exact ⟨.next :: calls, ended.next_cons⟩
    | @broken _ _ rest _ present short _ ih =>
        have behind : (s.call .next).2.reader.rest = rest := by
          rw [call_takesSegment (.inl rfl), Reader.readSegment_of_broken present short same]
        obtain ⟨calls, ended⟩ := ih behind nothing
        exact ⟨.next :: calls, ended.next_cons⟩

/-- Before the first fault, the end is the end of whole segments. -/
theorem exists_spells_of_findsEnd (ended : s.FindsEnd calls)
    (clean : ∀ reply ∈ s.run calls, ∀ cause, reply.1 ≠ .fault cause) :
    ∃ segments, Spells ReadAsNull segments s.reader.rest := by
  induction calls generalizing s with
  | nil =>
      obtain ⟨_, _, member, _⟩ := ended
      cases member
  | cons c calls ih =>
      obtain ⟨takes, reply, member, here⟩ := ended
      obtain ⟨first, others⟩ := List.forall_mem_cons.mp takes
      rw [run_cons] at member clean
      obtain ⟨sound, clean⟩ := List.forall_mem_cons.mp clean
      have intact : ∀ cause, s.reader.readSegment.1 ≠ .error cause := by
        intro cause failed
        exact sound cause ((call_eq_fault_iff first).mpr failed)
      have moved := call_takesSegment (s := s) first
      have isEnd := isEnd_call_iff (s := s) first
      have step := s.reader.readsSegment
      generalize s.reader.readSegment = found at intact moved step
      generalize s.reader = r at isEnd step ⊢
      cases step with
      | atEnd => exact ⟨[], .nil⟩
      | shortWord | shortPayload => exact absurd rfl (intact _)
      | item spelled =>
          rcases List.mem_cons.mp member with rfl | member
          · exact absurd (isEnd.mp here) (List.append_ne_nil_of_left_ne_nil spelled.ne_nil _)
          · obtain ⟨segments, later⟩ := ih ⟨others, reply, member, here⟩ clean
            rw [moved] at later
            exact ⟨_, .cons spelled later⟩

theorem exists_findsEnd_of_spells {segments : List Segment}
    (h : Spells ReadAsNull segments s.reader.rest) :
    ∃ calls, s.FindsEnd calls ∧ ∀ reply ∈ s.run calls, ∀ cause, reply.1 ≠ .fault cause := by
  have next : Call.TakesSegment .next := .inl rfl
  generalize same : s.reader.rest = bytes at h
  induction h generalizing s with
  | nil =>
      have ended := (isEnd_call_iff next).mpr same
      exact ⟨[.next], findsEnd_next same, List.forall_mem_singleton.mpr ended.ne_fault⟩
  | @cons _ _ _ rest first _ ih =>
      have read := Reader.readSegment_of_spells first same
      have behind : (s.call .next).2.reader.rest = rest := by rw [call_takesSegment next, read]
      obtain ⟨calls, ended, clean⟩ := ih behind
      refine ⟨.next :: calls, ended.next_cons, ?_⟩
      rw [run_cons, List.forall_mem_cons]
      refine ⟨?_, clean⟩
      intro cause told
      rw [call_eq_fault_iff next, read] at told
      cases told

/-- What comes of reading on by calls for the next segment, whatever fails. With no fault before it,
the end is found exactly in a blob of whole segments. Behind faults, it is found at some time
exactly where nothing is left over in the end: a length word that is cut short is reported again by
every later call, but behind a length word whose payload is cut short the reader goes on. -/
theorem finds_end_iff_nothing_left (blob : Bytes) :
    ((∃ calls, (start blob).FindsEnd calls ∧
        ∀ reply ∈ (start blob).run calls, ∀ cause, reply.1 ≠ .fault cause) ↔
      ∃ segments, Spells ReadAsNull segments blob) ∧
    (∃ left, LeavesOver blob left ∧ left.length < width ∧
      ((∃ calls, (start blob).FindsEnd calls) ↔ left = [])) ∧
    ∀ (s : Session) (c : Call) (cause : Fault), c.TakesSegment → (s.call c).1 = .fault cause →
      (cause = .truncatedLength s.reader.offset s.reader.remaining ∧
        (s.call c).2.reader = s.reader ∧
        ∀ calls : List Call, (∀ c ∈ calls, c.TakesSegment) →
          ∀ reply ∈ (s.call c).2.run calls, reply = (.fault cause, s.reader.remaining)) ∨
      ∃ (word : LengthWord) (size : Nat) (rest : Bytes),
        s.reader.rest = word.toBytes ++ rest ∧ word.payloadSize? = some size ∧
        rest.length < size ∧
        cause = .truncatedPayload (s.reader.offset + width) size rest.length ∧
        (s.call c).2.reader = ⟨s.reader.offset + width, rest⟩ := by
  refine ⟨⟨?_, ?_⟩, ?_, ?_⟩
  · intro ⟨calls, ended, clean⟩
    exact exists_spells_of_findsEnd ended clean
  · intro ⟨segments, whole⟩
    exact exists_findsEnd_of_spells whole
  · obtain ⟨left, leaves⟩ := exists_leavesOver blob
    refine ⟨left, leaves, leaves.length_lt, exists_findsEnd_iff.trans ⟨leaves.unique, ?_⟩⟩
    rintro rfl
    exact leaves
  · intro s c cause takes told
    have failed := (call_eq_fault_iff takes).mp told
    have moved := call_takesSegment (s := s) takes
    have cut : Unreadable s.reader.offset s.reader.rest cause := readSegment_eq_error_iff.mp failed
    generalize here : s.reader.rest = bytes at cut
    cases cut with
    | word _ short =>
        rw [← here] at short failed ⊢
        rw [Reader.snd_readSegment_of_short short] at moved
        refine .inl ⟨rfl, moved, ?_⟩
        intro calls others
        have few : s.reader.remaining < width := short
        rw [← moved] at few failed ⊢
        exact run_of_short others few failed
    | payload present short =>
        rw [Reader.readSegment_of_broken present short here] at moved
        exact .inr ⟨_, _, _, rfl, present, short, rfl, moved⟩

/-- Behind a segment, a length word that is cut short is reported for good, so the end is never
found. -/
theorem finds_end_iff_nothing_left_cut_word :
    (¬∃ calls, (start [0, 0, 0, 1, 97, 0, 0]).FindsEnd calls) ∧
    ∀ calls : List Call, (∀ c ∈ calls, c.TakesSegment) →
      ∀ reply ∈ ((start [0, 0, 0, 1, 97, 0, 0]).after [.next, .next]).run calls,
        reply = (.fault (.truncatedLength 5 2), 2) := by
  obtain ⟨-, ⟨left, leaves, -, ended⟩, fails⟩ :=
    finds_end_iff_nothing_left [0, 0, 0, 1, 97, 0, 0]
  constructor
  · have payload : SpellsSegment ReadAsNull (some [97]) (toBytes ⟨1⟩ ++ [97]) :=
      .payload (by decide)
    have cut : LeavesOver [0, 0, 0, 1, 97, 0, 0] [0, 0] :=
      .segment payload (.short (by decide))
    rw [ended, leaves.unique cut]
    exact List.cons_ne_nil _ _
  · rcases fails ((start [0, 0, 0, 1, 97, 0, 0]).after [.next]) .next (.truncatedLength 5 2)
      (.inl rfl) (by decide +kernel) with ⟨-, -, again⟩ | ⟨_, _, _, -, -, -, named, -⟩
    · exact again
    · cases named

/-- The payload of the first segment is cut short. Its bytes are read as a segment next, and then
the end is found. -/
theorem finds_end_behind_cut_payload :
    (¬∃ segments, Spells ReadAsNull segments [0, 0, 0, 9, 0, 0, 0, 1, 97]) ∧
    (start [0, 0, 0, 9, 0, 0, 0, 1, 97]).run [.next, .next, .next] =
      [(.fault (.truncatedPayload 4 9 5), 5), (.next (some (some [97])), 0), (.next none, 0)] := by
  refine ⟨?_, by decide +kernel⟩
  intro ⟨segments, whole⟩
  have first := whole.segments_take 1 0
  have fails : Reader.segments 1 ⟨0, [0, 0, 0, 9, 0, 0, 0, 1, 97]⟩ =
      .error (.truncatedPayload 4 9 5) := rfl
  rw [fails] at first
  cases first

end Session

end TupleBlob
