import TupleBlob.Proofs.Encoding
import TupleBlob.Proofs.Json.Completion
import TupleBlob.Proofs.Json.Items

/-! # Values shown as JSON and read again

The array for a tuple always has an item for each component, so a value comes back completed. That
may make an inner tuple too large to be written, and nothing else fails. Main statements: this,
and that whatever is read from JSON comes back unchanged.
-/

namespace TupleBlob

open LengthWord

namespace Ty

/-! ## The items that are read -/

section Items

variable {S : Type} [ScalarType S] {ts : List (Ty S)} {items : List Json}

@[simp] theorem ofItems_null (t : Ty S) (ts : List (Ty S)) (items : List Json) :
    ofItems (t :: ts) (.null :: items) = (ofItems ts items).map (none :: ·) := by
  rw [ofItems]

theorem ofItems_cons (t : Ty S) {item : Json} (present : item ≠ .null) :
    ofItems (t :: ts) (item :: items) =
      (t.ofJson item).bind fun payload => (ofItems ts items).map (some payload :: ·) := by
  rw [ofItems]
  · cases t.ofJson item <;> rfl
  · exact present

theorem listOf_eq_ok_iff {arity : Nat} {json : Json} :
    listOf arity json = .ok items ↔ json = .arr items ∧ items.length = arity := by
  cases json with
  | arr found =>
      simp only [listOf, Json.arr.injEq]
      constructor
      · intro read
        split at read
        · cases read
        · split at read
          · cases read
          · cases read
            exact ⟨rfl, by omega⟩
      · rintro ⟨rfl, rfl⟩
        rw [if_neg (Nat.lt_irrefl _), if_neg (Nat.lt_irrefl _)]
  | null | bool | num | str | obj => simp [listOf]

theorem ofJson_tuple (ts : List (Ty S)) (json : Json) :
    (Ty.tuple ts).ofJson json =
      ((decodeOnce json).bind (listOf ts.length)).bind fun items =>
        (ofItems ts items).bind encodeSegments := by
  rw [ofJson]
  cases (decodeOnce json).bind (listOf ts.length) with
  | error => rfl
  | ok items =>
      dsimp only [Except.bind]
      cases ofItems ts items <;> rfl

theorem ofJson_eq_bind_termsOfJson (ts : List (Ty S)) (json : Json) :
    (Ty.tuple ts).ofJson json = (termsOfJson ts json).bind encodeSegments := by
  rw [ofJson_tuple, termsOfJson]
  cases (decodeOnce json).bind (listOf ts.length) <;> rfl

theorem ofJson_arr (same : items.length = ts.length) :
    (Ty.tuple ts).ofJson (.arr items) = (ofItems ts items).bind encodeSegments := by
  have listed : listOf ts.length (.arr items) = .ok items := listOf_eq_ok_iff.mpr ⟨rfl, same⟩
  rw [ofJson_tuple, decodeOnce]
  · simp only [Except.bind, listed]
  · exact nofun

/-- A tuple is read from an array with an item for each component, or from the text of one. -/
theorem exists_items_of_ofJson {json : Json} {blob : Bytes}
    (read : (Ty.tuple ts).ofJson json = .ok blob) :
    ∃ items segments, decodeOnce json = .ok (.arr items) ∧ items.length = ts.length ∧
      ofItems ts items = .ok segments ∧ Spells WrittenAsNull segments blob := by
  rw [ofJson_tuple] at read
  obtain ⟨items, listed, read⟩ := bind_eq_ok_iff.mp read
  obtain ⟨_, decoded, listed⟩ := bind_eq_ok_iff.mp listed
  obtain ⟨rfl, same⟩ := listOf_eq_ok_iff.mp listed
  obtain ⟨segments, readItems, written⟩ := bind_eq_ok_iff.mp read
  exact ⟨items, segments, decoded, same, readItems, spells_of_encodeSegments written⟩

end Items

/-! ## From a value to JSON and back -/

variable {ts : List (Ty Scalar)} {segments : List Segment} {items : List Json}

/-- What is read from the JSON form of a value: the value completed, unless that makes a tuple in
it too large. -/
inductive Restores (t : Ty Scalar) (before : Bytes) : Except Fault Bytes → Prop
  | completed {after} (completes : Completes t before after) : Restores t before (.ok after)
  | outgrown {index size} (outgrows : Outgrows t before index size) :
      Restores t before (.error (.oversizedComponent index size))

/-- The same for the segments of a tuple. -/
inductive RestoresSegments (types : List (Ty Scalar)) (before : List Segment) :
    Except Fault (List Segment) → Prop
  | completed {after} (completed : Completed Completes types before after) :
      RestoresSegments types before (.ok after)
  | outgrown {t payload index size} {i : Nat} (place : types[i]? = some t)
      (present : before[i]? = some (some payload)) (outgrows : Outgrows t payload index size) :
      RestoresSegments types before (.error (.oversizedComponent index size))

/-- What is read of the places after the first decides, as long as they stand in the whole. -/
theorem RestoresSegments.map {t : Ty Scalar} {before : List Segment} {segment : Segment}
    {read : Except Fault (List Segment)} (h : RestoresSegments ts segments read)
    (later : ∀ i payload, segments[i]? = some (some payload) →
      before[i + 1]? = some (some payload))
    (extend : ∀ after, Completed Completes ts segments after →
      Completed Completes (t :: ts) before (segment :: after)) :
    RestoresSegments (t :: ts) before (read.map (segment :: ·)) := by
  cases h with
  | completed completed => exact .completed (extend _ completed)
  | @outgrown _ _ _ _ i place present outgrows =>
      have inWhole : (t :: ts)[i + 1]? = some _ := place
      exact .outgrown inWhole (later _ _ present) outgrows

theorem exists_restoresSegments
    (inside : Aligned (fun t payload => ∃ json, t.toJson payload = .ok json ∧
      Restores t payload (t.ofJson json)) ts segments) :
    ∃ items, Shows ts segments items ∧ RestoresSegments ts segments (ofItems ts items) := by
  induction ts generalizing segments with
  | nil =>
      cases inside
      exact ⟨[], .nil, .completed .nil⟩
  | cons t ts ih =>
      cases inside with
      | nil =>
          obtain ⟨items, shows', read⟩ := ih .nil
          refine ⟨.null :: items, .absent shows', ?_⟩
          rw [ofItems_null]
          exact read.map (by simp) fun _ => .absent
      | null others =>
          obtain ⟨items, shows', read⟩ := ih others
          refine ⟨.null :: items, .null shows', ?_⟩
          rw [ofItems_null]
          exact read.map (fun _ _ => id) fun _ => .null
      | payload first others =>
          obtain ⟨items, shows', read⟩ := ih others
          obtain ⟨item, shown, readFirst⟩ := first
          refine ⟨item :: items, .payload shown shows', ?_⟩
          rw [ofItems_cons t (toJson_ne_null shown)]
          generalize t.ofJson item = found at readFirst
          cases readFirst with
          | completed completes => exact read.map (fun _ _ => id) fun _ => .payload completes
          | outgrown outgrows => exact .outgrown (i := 0) rfl rfl outgrows

/-- Writing the completed segments fails only for a payload that was smaller before. -/
theorem Restores.tuple {blob : Bytes} {read : Except Fault (List Segment)}
    (spelled : Spells ReadAsNull segments blob) (h : RestoresSegments ts segments read) :
    Restores (.tuple ts) blob (read.bind encodeSegments) := by
  cases h with
  | outgrown place present outgrows =>
      exact .outgrown (.inside spelled place present outgrows)
  | @completed after completed =>
      have writes := writesSegments after
      simp only [Except.bind]
      generalize encodeSegments after = found at writes
      cases writes with
      | written written => exact .completed (.tuple spelled written completed)
      | @oversized front _ payload' rest _ large =>
          have there : (front ++ some payload' :: rest)[front.length]? = some (some payload') := by
            simp
          obtain ⟨t, payload, place, present, completes⟩ := completed.getElem?_payload there
          cases t with
          | tuple us => exact .outgrown (.here spelled place present completes large)
          | scalar s =>
              cases completes
              have small := spelled.fits (List.mem_of_getElem? present)
              exact absurd small (Nat.not_le_of_lt large)

theorem exists_restores (t : Ty Scalar) {bytes : Bytes} (valid : t.Valid bytes) :
    ∃ json, t.toJson bytes = .ok json ∧ Restores t bytes (t.ofJson json) := by
  induction t generalizing bytes with
  | scalar s =>
      rw [valid_scalar_iff] at valid
      obtain ⟨json, shown⟩ := Scalar.exists_toJson valid
      refine ⟨json, shown, ?_⟩
      rw [ofJson, ScalarType.ofJson_eq, Scalar.ofJson_toJson shown]
      exact .completed .scalar
  | tuple ts ih =>
      obtain ⟨segments, spelled, aligned⟩ := valid_tuple_iff.mp valid
      obtain ⟨items, shows', read⟩ :=
        exists_restoresSegments (aligned.mono fun t ht _ => ih t ht)
      refine ⟨.arr items, shows'.toJson_eq spelled, ?_⟩
      rw [ofJson_arr shows'.length_eq]
      exact .tuple spelled read

/-! ## From JSON to a value and back -/

/-- Bytes that were read from JSON are read again from their JSON form. -/
def Settles (t : Ty Scalar) : Prop :=
  ∀ json bytes, t.ofJson json = .ok bytes →
    ∃ again, t.toJson bytes = .ok again ∧ t.ofJson again = .ok bytes

theorem exists_shows_of_ofItems (settles : ∀ t ∈ ts, Settles t)
    (same : items.length = ts.length) (read : ofItems ts items = .ok segments) :
    ∃ again, Shows ts segments again ∧ ofItems ts again = .ok segments := by
  induction ts generalizing items segments with
  | nil =>
      cases items with
      | cons => cases same
      | nil =>
          cases read
          exact ⟨[], .nil, rfl⟩
  | cons t ts ih =>
      obtain ⟨first, later⟩ := List.forall_mem_cons.mp settles
      cases items with
      | nil => cases same
      | cons item items =>
          by_cases null : item = .null
          · subst null
            rw [ofItems_null] at read
            obtain ⟨others, rest, rfl⟩ := map_eq_ok_iff.mp read
            obtain ⟨again, shows', readAgain⟩ := ih later (Nat.succ.inj same) rest
            refine ⟨.null :: again, .null shows', ?_⟩
            rw [ofItems_null, readAgain]
            rfl
          · rw [ofItems_cons t null] at read
            obtain ⟨payload, readFirst, read⟩ := bind_eq_ok_iff.mp read
            obtain ⟨others, rest, rfl⟩ := map_eq_ok_iff.mp read
            obtain ⟨again, shows', readAgain⟩ := ih later (Nat.succ.inj same) rest
            obtain ⟨itemAgain, shown, readFirstAgain⟩ := first item payload readFirst
            refine ⟨itemAgain :: again, .payload shown shows', ?_⟩
            rw [ofItems_cons t (toJson_ne_null shown), readFirstAgain, readAgain]
            rfl

theorem settles (t : Ty Scalar) : Settles t := by
  induction t with
  | scalar s =>
      intro json bytes read
      rw [ofJson] at read
      obtain ⟨again, shown⟩ := Scalar.exists_toJson (Scalar.validate_of_ofJson read)
      refine ⟨again, shown, ?_⟩
      rw [ofJson]
      exact Scalar.ofJson_toJson shown
  | tuple ts ih =>
      intro json blob read
      obtain ⟨items, segments, -, same, readItems, written⟩ := exists_items_of_ofJson read
      obtain ⟨again, shows', readAgain⟩ := exists_shows_of_ofItems ih same readItems
      refine ⟨.arr again, shows'.toJson_eq written.readable, ?_⟩
      rw [ofJson_arr shows'.length_eq, readAgain]
      exact written.encodeSegments_eq

/-- A value has a JSON form with an item for each component, and is read from it completed, unless
that makes a tuple in it too large. The completed value has the same JSON form, and the same place
in the order where no tuple with components was empty. What is read from any JSON comes back as it
is. -/
theorem json_round_trip (ts : List (Ty Scalar)) :
    (∀ blob, (Ty.tuple ts).Valid blob →
      ∃ segments items, split ts.length blob = .ok segments ∧
        (Ty.tuple ts).toJson blob = .ok (.arr items) ∧
        items.length = ts.length ∧
        (∀ i < ts.length, items[i]? = some .null ↔ segments[i]?.join = none) ∧
        Restores (.tuple ts) blob ((Ty.tuple ts).ofJson (.arr items)) ∧
        ∀ after, (Ty.tuple ts).ofJson (.arr items) = .ok after →
          (Ty.tuple ts).toJson after = .ok (.arr items) ∧
          (BegunThroughout (.tuple ts) blob → (Ty.tuple ts).order blob after = .ok .eq)) ∧
    ∀ json blob, (Ty.tuple ts).ofJson json = .ok blob →
      ∃ again, (Ty.tuple ts).toJson blob = .ok again ∧ (Ty.tuple ts).ofJson again = .ok blob := by
  refine ⟨?_, settles (.tuple ts)⟩
  intro blob valid
  obtain ⟨segments, spelled, aligned⟩ := valid_tuple_iff.mp valid
  obtain ⟨items, shows', read⟩ :=
    exists_restoresSegments (aligned.mono fun t _ _ => exists_restores t)
  have shown := shows'.toJson_eq spelled
  have restores : Restores (.tuple ts) blob ((Ty.tuple ts).ofJson (.arr items)) := by
    rw [ofJson_arr shows'.length_eq]
    exact .tuple spelled read
  refine ⟨segments, items, spelled.split_eq aligned.length_le, shown, shows'.length_eq,
    fun i => shows'.null_iff, restores, ?_⟩
  intro after found
  rw [found] at restores
  cases restores with
  | completed completes =>
      refine ⟨?_, completes.order_eq valid⟩
      rw [← completes.toJson_eq]
      exact shown

/-- Both tuples of the value stop before their last component. The JSON that is read holds the text
of the inner one. -/
theorem json_round_trip_nested :
    (∃ after,
      (Ty.tuple [.tuple [.scalar Scalar.int32, .scalar .utf8], .scalar .bytes]).ofJson
        (.arr [.arr [.int 7, .null], .null]) = .ok after ∧
      (Ty.tuple [.tuple [.scalar Scalar.int32, .scalar .utf8], .scalar .bytes]).toJson after =
        .ok (.arr [.arr [.int 7, .null], .null]) ∧
      (Ty.tuple [.tuple [.scalar Scalar.int32, .scalar .utf8], .scalar .bytes]).order
        [0, 0, 0, 8, 0, 0, 0, 4, 0, 0, 0, 7] after = .ok .eq) ∧
    ∃ again,
      (Ty.tuple [.tuple [.scalar Scalar.int32, .scalar .utf8], .scalar .bytes]).toJson
        [0, 0, 0, 8, 255, 255, 255, 255, 0, 0, 0, 0, 255, 255, 255, 255] = .ok again ∧
      (Ty.tuple [.tuple [.scalar Scalar.int32, .scalar .utf8], .scalar .bytes]).ofJson again =
        .ok [0, 0, 0, 8, 255, 255, 255, 255, 0, 0, 0, 0, 255, 255, 255, 255] := by
  obtain ⟨fromValue, fromJson⟩ :=
    json_round_trip [.tuple [.scalar .int32, .scalar .utf8], .scalar .bytes]
  constructor
  · have valid : (Ty.tuple [.tuple [.scalar Scalar.int32, .scalar .utf8], .scalar .bytes]).Valid
        [0, 0, 0, 8, 0, 0, 0, 4, 0, 0, 0, 7] := rfl
    have validInside : (Ty.tuple [.scalar Scalar.int32, .scalar .utf8]).Valid
        [0, 0, 0, 4, 0, 0, 0, 7] := rfl
    have items : (Ty.tuple [.tuple [.scalar Scalar.int32, .scalar .utf8], .scalar .bytes]).toJson
        [0, 0, 0, 8, 0, 0, 0, 4, 0, 0, 0, 7] = .ok (.arr [.arr [.int 7, .null], .null]) := by
      decide +kernel
    have read : (Ty.tuple [.tuple [.scalar Scalar.int32, .scalar .utf8], .scalar .bytes]).ofJson
        (.arr [.arr [.int 7, .null], .null]) =
          .ok [0, 0, 0, 12, 0, 0, 0, 4, 0, 0, 0, 7, 255, 255, 255, 255, 255, 255, 255, 255] := by
      decide +kernel
    obtain ⟨spelled, -⟩ := spells_of_split valid rfl
    obtain ⟨spelledInside, -⟩ := spells_of_split validInside rfl
    obtain ⟨_, _, -, shown, -, -, -, after⟩ := fromValue _ valid
    cases items.symm.trans shown
    obtain ⟨again, unmoved⟩ := after _ read
    refine ⟨_, read, again, unmoved ?_⟩
    refine .tuple (fun _ => List.cons_ne_nil _ _) spelled (.payload ?_ .nil)
    exact .tuple (fun _ => List.cons_ne_nil _ _) spelledInside (.payload .scalar .nil)
  · exact fromJson (.arr [.str "[null,\"\"]", .null]) _ (by decide +kernel)

end Ty

end TupleBlob
