import TupleBlob.Sink

/-! # What a sink holds

A component is written by two writes, of its length word and of its payload, and either of them may
find the sink full. To write bytes piece by piece is to write them all at once, so one string of
bytes tells what a sink holds in the end: the segments before the first payload that is too large.
Main statement: a sink holds as much of them as it has room for, and fails for want of room before
it fails for that payload.
-/

namespace TupleBlob

open LengthWord

namespace Sink

/-! ## Pieces -/

/-- Whether there is room for all the bytes. -/
def takes (sink : Sink) (bytes : Bytes) : Bool :=
  sink.room.all fun room => bytes.length ≤ room

/-- The sink after as many of the bytes were stored as there is room for. -/
def hold (sink : Sink) (bytes : Bytes) : Sink :=
  match sink.room with
  | none => ⟨none, sink.written ++ bytes⟩
  | some room => ⟨some (room - bytes.length), sink.written ++ bytes.take room⟩

/-- Stores bytes, and ends with `done` where all of them were stored. -/
def pour {α : Type} (sink : Sink) (bytes : Bytes) (done : Except Fault α) :
    Except Fault α × Sink :=
  (if sink.takes bytes then done else .error .sinkFull, sink.hold bytes)

@[simp] theorem toBytes_bytes (bytes : Bytes) : (Payload.bytes bytes).toBytes = bytes := rfl

theorem write_eq (payload : Payload) (sink : Sink) :
    sink.write payload = sink.pour payload.toBytes (.ok ()) := by
  obtain ⟨_ | room, written⟩ := sink
  · rfl
  · simp only [write, pour, takes, hold, Option.all_some, Payload.length_toBytes,
      decide_eq_true_eq]
    split
    · rename_i fits
      rw [List.take_of_length_le (by rwa [Payload.length_toBytes])]
    · rename_i large
      rw [Payload.take_eq, Nat.sub_eq_zero_of_le (Nat.le_of_not_le large)]

theorem pour_nil {α : Type} (sink : Sink) (done : Except Fault α) :
    sink.pour [] done = (done, sink) := by
  obtain ⟨_ | room, written⟩ := sink
  · simp [pour, takes, hold]
  · simp [pour, takes, hold]

/-- Once a piece was not stored whole there is no room left, so nothing of the next one is stored,
whether it is written or not. -/
theorem pour_append {α : Type} (sink : Sink) (front rest : Bytes) (done : Except Fault α) :
    sink.pour (front ++ rest) done =
      match sink.pour front (.ok ()) with
      | (.error fault, sink) => (.error fault, sink)
      | (.ok (), sink) => sink.pour rest done := by
  obtain ⟨_ | room, written⟩ := sink
  · simp [pour, takes, hold]
  · by_cases fits : front.length ≤ room
    · have whole : front.length + rest.length ≤ room ↔ rest.length ≤ room - front.length := by
        omega
      simp [pour, takes, hold, fits, whole, List.take_append, Nat.sub_sub,
        List.take_of_length_le fits]
    · have none : room - front.length = 0 := by omega
      have more : ¬front.length + rest.length ≤ room := by omega
      have left : room - (front.length + rest.length) = 0 := by omega
      simp [pour, takes, hold, fits, more, List.take_append, none, left]

/-- What is done once all the bytes are stored adds nothing to the sink. -/
theorem pour_then {α : Type} (sink : Sink) (bytes : Bytes) (done : Except Fault α) :
    (match sink.pour bytes (.ok ()) with
      | (.error fault, sink) => (.error fault, sink)
      | (.ok (), sink) => (done, sink)) = sink.pour bytes done := by
  cases takes : sink.takes bytes with
  | true => simp only [pour, takes, if_true]
  | false => simp only [pour, takes, Bool.false_eq_true, if_false]

theorem pour_of_lt {α : Type} {capacity : Nat} {bytes : Bytes} (small : capacity < bytes.length)
    (done : Except Fault α) :
    (Sink.mk (some capacity) []).pour bytes done =
      (.error .sinkFull, ⟨some 0, bytes.take capacity⟩) := by
  have full : ¬bytes.length ≤ capacity := Nat.not_le_of_lt small
  have left : capacity - bytes.length = 0 := Nat.sub_eq_zero_of_le (Nat.le_of_lt small)
  simp [pour, takes, hold, full, left]

theorem pour_of_le {α : Type} {room : Option Nat} {bytes : Bytes}
    (enough : ∀ capacity, room = some capacity → bytes.length ≤ capacity)
    (done : Except Fault α) :
    ((Sink.mk room []).pour bytes done).1 = done ∧
      ((Sink.mk room []).pour bytes done).2.written = bytes := by
  cases room with
  | none => exact ⟨rfl, rfl⟩
  | some capacity =>
      have fits := enough capacity rfl
      simp [pour, takes, hold, fits, List.take_of_length_le fits]

end Sink

/-! ## Components -/

/-- The payload has no length word. -/
def oversized (component : Option Payload) : Bool :=
  component.any fun payload => maxPayload < payload.size

theorem oversized_iff {component : Option Payload} :
    oversized component = true ↔
      ∃ payload, component = some payload ∧ maxPayload < payload.size := by
  cases component <;> simp [oversized]

/-- The bytes of the segment that a component is written as. -/
def segmentBytes : Option Payload → Bytes
  | none => LengthWord.null.toBytes
  | some payload => (LengthWord.mk (.ofNat payload.size)).toBytes ++ payload.toBytes

/-- The segments of the components before the first one that is too large. -/
def fittingBytes (components : List (Option Payload)) : Bytes :=
  (components.take (components.findIdx oversized)).flatMap segmentBytes

theorem fittingBytes_cons {component : Option Payload} (fits : oversized component = false)
    (others : List (Option Payload)) :
    fittingBytes (component :: others) = segmentBytes component ++ fittingBytes others := by
  simp only [fittingBytes, List.findIdx_cons, fits, cond_false, List.take_succ_cons,
    List.flatMap_cons]

namespace Sink

theorem writeComponent_eq {component : Option Payload} (fits : oversized component = false)
    (index : Nat) (sink : Sink) :
    sink.writeComponent index component =
      sink.pour (segmentBytes component) (.ok (segmentBytes component).length) := by
  cases component with
  | none =>
      simp only [writeComponent, write_eq, segmentBytes, toBytes_bytes, length_toBytes]
      exact pour_then sink _ _
  | some payload =>
      have word : lengthWord index payload.size = .ok ⟨.ofNat payload.size⟩ := by
        simp only [oversized, Option.any_some, decide_eq_false_iff_not, Nat.not_lt] at fits
        simp only [lengthWord, ofSize?, if_pos fits]
      simp only [writeComponent, word, write_eq, segmentBytes, pour_append, toBytes_bytes,
        List.length_append, length_toBytes, Payload.length_toBytes]
      rcases sink.pour (LengthWord.mk (.ofNat payload.size)).toBytes (.ok ()) with ⟨_ | _, behind⟩
      · rfl
      · exact pour_then behind _ _

/-- Nothing is written of a payload that is too large. -/
theorem writeComponent_oversized {payload : Payload} (large : maxPayload < payload.size)
    (index : Nat) (sink : Sink) :
    sink.writeComponent index (some payload) =
      (.error (.oversizedComponent index payload.size), sink) := by
  simp only [writeComponent, lengthWord, ofSize?_eq_none_iff.mpr large]

/-- How writing ends where there is room: for the first payload that is too large, if there is one,
and otherwise with the number of bytes. -/
def verdict (index size : Nat) (components : List (Option Payload)) : Except Fault Nat :=
  match components[components.findIdx oversized]? with
  | some (some payload) =>
    .error (.oversizedComponent (index + components.findIdx oversized) payload.size)
  | _ => .ok size

theorem verdict_cons {component : Option Payload} (fits : oversized component = false)
    (index size : Nat) (others : List (Option Payload)) :
    verdict index size (component :: others) = verdict (index + 1) size others := by
  simp only [verdict, List.findIdx_cons, fits, cond_false, List.getElem?_cons_succ,
    Nat.add_assoc, Nat.add_comm 1]

/-- Both writes of each component go on where the last one ended, so the whole run is one string of
bytes, whatever the sink held before. -/
theorem writeFrom_eq (components : List (Option Payload)) (index count : Nat) (sink : Sink) :
    sink.writeFrom index count components =
      sink.pour (fittingBytes components)
        (verdict index (count + (fittingBytes components).length) components) := by
  induction components generalizing index count sink with
  | nil => exact (pour_nil sink _).symm
  | cons component others ih =>
      cases large : oversized component with
      | true =>
          obtain ⟨payload, rfl, size⟩ := oversized_iff.mp large
          simp only [writeFrom, writeComponent_oversized size, fittingBytes, List.findIdx_cons,
            large, cond_true, List.take_zero, List.flatMap_nil, pour_nil, verdict,
            List.getElem?_cons_zero, Nat.add_zero]
      | false =>
          simp only [writeFrom, writeComponent_eq large, verdict_cons large,
            fittingBytes_cons large, pour_append, ih, List.length_append, Nat.add_assoc]
          cases room : sink.takes (segmentBytes component) with
          | true => simp only [pour, room, if_true]
          | false => simp only [pour, room, Bool.false_eq_true, if_false]

theorem verdict_of_oversized {components : List (Option Payload)} {payload : Payload}
    (present : components[components.findIdx oversized]? = some (some payload)) (size : Nat) :
    verdict 0 size components =
      .error (.oversizedComponent (components.findIdx oversized) payload.size) := by
  simp only [verdict, present, Nat.zero_add]

theorem verdict_of_fitting {components : List (Option Payload)}
    (all : components.findIdx oversized = components.length) (size : Nat) :
    verdict 0 size components = .ok size := by
  have none : components[components.findIdx oversized]? = none :=
    List.getElem?_eq_none (Nat.le_of_eq all.symm)
  simp only [verdict, none]

/-- The first component that is too large is the one that is reported. -/
theorem exists_oversized {components : List (Option Payload)}
    (found : components.findIdx oversized < components.length) :
    ∃ payload, components[components.findIdx oversized]? = some (some payload) ∧
      maxPayload < payload.size := by
  obtain ⟨payload, present, large⟩ := oversized_iff.mp (List.findIdx_getElem (w := found))
  exact ⟨payload, by rw [List.getElem?_eq_getElem found, present], large⟩

theorem writeComponents_eq (components : List (Option Payload)) (sink : Sink) :
    sink.writeComponents components =
      sink.pour (fittingBytes components)
        (verdict 0 (fittingBytes components).length components) := by
  rw [writeComponents, writeFrom_eq, Nat.zero_add]

end Sink

theorem encode_eq (components : List (Option Payload)) :
    encode components =
      (Sink.verdict 0 (fittingBytes components).length components).map fun _ =>
        fittingBytes components := by
  rw [encode, Sink.writeComponents_eq]
  cases Sink.verdict 0 (fittingBytes components).length components <;> rfl

/-- The components before the first one that is too large make up the bytes to be written. A sink
with room for only a part of them holds that part and reports that it is full. Any other holds them
all, and the one too large is reported, of which nothing is written, or else the number of bytes.
They are the blob of the components, which have none if one of them is too large. -/
theorem writeComponents_holds (components : List (Option Payload)) (room : Option Nat) :
    let first := components.findIdx oversized
    let front := (components.take first).flatMap segmentBytes
    let run := (Sink.mk room []).writeComponents components
    (∀ capacity, room = some capacity → capacity < front.length →
      run.1 = .error .sinkFull ∧ run.2.written = front.take capacity) ∧
    ((∀ capacity, room = some capacity → front.length ≤ capacity) →
      run.2.written = front ∧
      (∀ payload, components[first]? = some (some payload) →
        run.1 = .error (.oversizedComponent first payload.size)) ∧
      (first = components.length → run.1 = .ok front.length)) ∧
    (first < components.length → ∃ payload,
      components[first]? = some (some payload) ∧ maxPayload < payload.size ∧
      encode components = .error (.oversizedComponent first payload.size)) ∧
    (first = components.length → encode components = .ok front) := by
  intro first front run
  have poured : run = (Sink.mk room []).pour front (Sink.verdict 0 front.length components) :=
    Sink.writeComponents_eq components _
  have encoded : encode components =
      (Sink.verdict 0 front.length components).map fun _ => front := encode_eq components
  refine ⟨?_, ?_, ?_, ?_⟩
  · rintro capacity rfl small
    rw [poured, Sink.pour_of_lt small]
    exact ⟨rfl, rfl⟩
  · intro enough
    obtain ⟨ended, holds⟩ := Sink.pour_of_le enough (Sink.verdict 0 front.length components)
    rw [poured, ended]
    exact ⟨holds, fun payload present => Sink.verdict_of_oversized present _,
      fun all => Sink.verdict_of_fitting all _⟩
  · intro found
    obtain ⟨payload, present, large⟩ := Sink.exists_oversized found
    refine ⟨payload, present, large, ?_⟩
    rw [encoded, Sink.verdict_of_oversized present, Except.map]
  · intro all
    rw [encoded, Sink.verdict_of_fitting all, Except.map]

/-- Room for a part of a length word, and for all up to a payload that is too large. -/
theorem writeComponents_holds_up_to_oversized :
    ((Sink.mk (some 5) []).writeComponents
        [none, some (.bytes [7, 8]), some (.zeros 2147483648), none]).1 = .error .sinkFull ∧
    ((Sink.mk (some 5) []).writeComponents
        [none, some (.bytes [7, 8]), some (.zeros 2147483648), none]).2.written =
      [255, 255, 255, 255, 0] ∧
    ((Sink.mk (some 10) []).writeComponents
        [none, some (.bytes [7, 8]), some (.zeros 2147483648), none]).1 =
      .error (.oversizedComponent 2 2147483648) ∧
    ((Sink.mk (some 10) []).writeComponents
        [none, some (.bytes [7, 8]), some (.zeros 2147483648), none]).2.written =
      [255, 255, 255, 255, 0, 0, 0, 2, 7, 8] := by
  obtain ⟨full, -⟩ := writeComponents_holds
    [none, some (.bytes [7, 8]), some (.zeros 2147483648), none] (some 5)
  obtain ⟨-, held, -⟩ := writeComponents_holds
    [none, some (.bytes [7, 8]), some (.zeros 2147483648), none] (some 10)
  obtain ⟨stopped, part⟩ := full 5 rfl (by decide)
  obtain ⟨all, refused, -⟩ := held fun capacity same => by cases same; decide
  exact ⟨stopped, part, refused _ rfl, all⟩

end TupleBlob
