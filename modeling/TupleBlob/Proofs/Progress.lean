import Mathlib.Data.Nat.Find
import Mathlib.Logic.Function.Iterate
import TupleBlob.Proofs.Resuming

/-! # Readers that go on or rest

A call for the next segment takes the reader past a length word at least, also where it fails for
the payload behind the word. Only where fewer bytes are left than a length word takes does the
reader stay, and there it rests for good. Main statement: this, and that a reader rests after as
many calls as there is room for length words in the bytes it has left, whatever it met on the way,
so reading up to the end or the first fault comes to an end.
-/

namespace TupleBlob

open LengthWord

namespace Reader

/-- The bytes between the place of a reader and one further on. -/
structure Passes (before : Reader) (passed : Bytes) (after : Reader) : Prop where
  rest_eq : before.rest = passed ++ after.rest
  offset_eq : after.offset = before.offset + passed.length

/-- What a reader answers for good where it has no room for a length word. -/
def restingAnswer (r : Reader) : Except Fault (Option Segment) :=
  if r.rest = [] then .ok none else .error (.truncatedLength r.offset r.remaining)

/-- The reader after some calls for the next segment, whatever they were answered. -/
def after (r : Reader) (calls : Nat) : Reader := (fun r => r.next.2)^[calls] r

/-- So many calls find a segment each, and the one after them finds the end or fails. -/
structure StopsAfter (r : Reader) (calls : Nat) : Prop where
  found : ∀ earlier < calls, ∃ segment, (r.after earlier).next.1 = .ok (some segment)
  stopped : (r.after calls).next.1 = .ok none ∨ ∃ fault, (r.after calls).next.1 = .error fault

variable {r : Reader} {calls : Nat}

/-! ## One call -/

theorem Passes.remaining_eq {before after : Reader} {passed : Bytes}
    (h : before.Passes passed after) : before.remaining = passed.length + after.remaining := by
  rw [remaining, h.rest_eq, List.length_append, remaining]

theorem next_of_short (few : r.remaining < width) : r.next = (r.restingAnswer, r) := by
  refine Prod.ext ?_ ((snd_next r).trans (snd_readSegment_of_short few))
  rw [restingAnswer]
  split
  · rename_i ended
    exact next_eq_none_iff.mpr (readSegment_eq_atEnd_iff.mpr ended)
  · rename_i more
    exact next_eq_error_iff.mpr (readSegment_eq_error_iff.mpr (.word more few))

/-- Where there is room for a length word, it is passed at least. -/
theorem passes_next (room : width ≤ r.remaining) :
    ∃ passed, width ≤ passed.length ∧ r.Passes passed r.next.2 := by
  rw [snd_next]
  have step := r.readsSegment
  generalize r.readSegment = found at step
  cases step with
  | atEnd => cases room
  | shortWord _ short => exact absurd room (Nat.not_le_of_lt short)
  | item spelled => exact ⟨_, spelled.width_le_length, rfl, rfl⟩
  | shortPayload => exact ⟨_, Nat.le_refl _, rfl, rfl⟩

theorem remaining_lt_of_stays (stays : r.next.2 = r) : r.remaining < width := by
  apply Nat.lt_of_not_le
  intro room
  obtain ⟨passed, wide, passes⟩ := passes_next room
  have counted := passes.remaining_eq
  rw [stays] at counted
  simp only [width] at wide
  omega

/-! ## Call after call -/

theorem after_succ (r : Reader) (calls : Nat) :
    r.after (calls + 1) = (r.after calls).next.2 :=
  Function.iterate_succ_apply' _ calls r

/-- A reader that has no room for a length word rests. -/
theorem after_of_short (few : r.remaining < width) (calls : Nat) : r.after calls = r := by
  have stays : r.next.2 = r := by rw [next_of_short few]
  exact Function.iterate_fixed stays calls

/-- Each call passes a length word, up to where there is no room for one. -/
theorem remaining_after (r : Reader) (calls : Nat) :
    (r.after calls).remaining < width ∨
      (r.after calls).remaining + width * calls ≤ r.remaining := by
  induction calls with
  | zero => exact .inr (Nat.le_refl _)
  | succ calls ih =>
      rw [after_succ]
      by_cases few : (r.after calls).remaining < width
      · rw [next_of_short few]
        exact .inl few
      · obtain ⟨passed, wide, passes⟩ := passes_next (Nat.le_of_not_lt few)
        have counted := passes.remaining_eq
        have before := ih.resolve_left few
        rw [Nat.mul_succ]
        omega

theorem remaining_after_lt (enough : r.remaining / width ≤ calls) :
    (r.after calls).remaining < width := by
  rcases remaining_after r calls with few | counted
  · exact few
  · simp only [width] at enough counted ⊢
    omega

/-- Reading up to the end or the first fault takes no more calls than there is room for words. -/
theorem exists_stopsAfter (r : Reader) : ∃ calls ≤ r.remaining / width, r.StopsAfter calls := by
  classical
  have rests : ∀ segment, (r.after (r.remaining / width)).next.1 ≠ .ok (some segment) := by
    intro segment
    rw [next_of_short (remaining_after_lt (Nat.le_refl _)), restingAnswer]
    split <;> simp
  have some_stop : ∃ calls, ∀ segment, (r.after calls).next.1 ≠ .ok (some segment) := ⟨_, rests⟩
  refine ⟨Nat.find some_stop, Nat.find_min' some_stop rests, ?_, ?_⟩
  · intro earlier before
    have found := Nat.find_min some_stop before
    simpa only [not_forall, not_not] using found
  · have stop := Nat.find_spec some_stop
    generalize (r.after (Nat.find some_stop)).next.1 = answer at stop
    match answer with
    | .ok none => exact .inl rfl
    | .error fault => exact .inr ⟨fault, rfl⟩
    | .ok (some segment) => exact absurd rfl (stop segment)

/-- A call for the next segment passes a length word at least, or leaves the reader as it is. It
does the latter only where fewer bytes are left than a length word takes, and then every later call
is answered in the same way: by the end where no byte is left, and otherwise by the same fault.
After as many calls as there is room for length words in what was left, no call moves the reader
any more, and one of them at the latest finds the end or fails. -/
theorem next_passes_or_rests (r : Reader) :
    ((∃ passed, width ≤ passed.length ∧ r.Passes passed r.next.2) ∨ r.next.2 = r) ∧
    (r.next.2 = r → r.remaining < width ∧
      ∀ calls, (r.after calls).next = (r.restingAnswer, r)) ∧
    (∀ calls, r.remaining / width ≤ calls → (r.after calls).next.2 = r.after calls) ∧
    ∃ calls ≤ r.remaining / width, r.StopsAfter calls := by
  refine ⟨?_, ?_, ?_, exists_stopsAfter r⟩
  · by_cases few : r.remaining < width
    · right
      rw [next_of_short few]
    · left
      exact passes_next (Nat.le_of_not_lt few)
  · intro stays
    have few := remaining_lt_of_stays stays
    refine ⟨few, fun calls => ?_⟩
    rw [after_of_short few, next_of_short few]
  · intro calls enough
    rw [next_of_short (remaining_after_lt enough)]

/-- The payload of the first segment is cut short, a null is found in its bytes, and the byte behind
the null is reported from the third call on. -/
theorem next_rests_behind_cut_payload :
    (∀ calls, 2 ≤ calls →
      ((start [0, 0, 0, 9, 255, 255, 255, 255, 0]).after calls).next.2 =
        (start [0, 0, 0, 9, 255, 255, 255, 255, 0]).after calls) ∧
    (start [0, 0, 0, 9, 255, 255, 255, 255, 0]).after 2 = ⟨8, [0]⟩ ∧
    ∀ calls, (after ⟨8, [0]⟩ calls).next = (.error (.truncatedLength 8 1), ⟨8, [0]⟩) := by
  obtain ⟨-, -, reached, -⟩ := next_passes_or_rests (start [0, 0, 0, 9, 255, 255, 255, 255, 0])
  obtain ⟨-, rests, -, -⟩ := next_passes_or_rests ⟨8, [0]⟩
  exact ⟨reached, by decide, (rests rfl).2⟩

end Reader

end TupleBlob
