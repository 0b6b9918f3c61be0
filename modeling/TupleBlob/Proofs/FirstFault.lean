import TupleBlob.Proofs.Truncation

/-! # The fault that is reported

A blob may be wrong in several places: in components side by side, in tuples inside them, and in
what follows a last component. Each place has a path of steps from the outermost tuple, and the
places have an order, in which components come from the left and what is inside a component comes
before what is behind it. Main statement: a blob is accepted when it is wrong nowhere, and is
otherwise refused for the first place in that order, with the path to it and the fault that is
there.
-/

namespace TupleBlob

open LengthWord

variable {S : Type}

/-! ## Places -/

mutual

/-- Something is wrong where the path leads to, be it the first such place or not. -/
inductive Faulty [ScalarType S] : Ty S → Bytes → List (Step S) → Fault → Prop
  | scalar {s bytes fault} (refused : ScalarType.validate s bytes = .error fault) :
      Faulty (.scalar s) bytes [] fault
  | tuple {ts segments front bytes path fault} (before : Spells ReadAsNull segments front)
      (here : FaultyAt ts segments.length front.length bytes path fault) :
      Faulty (.tuple ts) (front ++ bytes) path fault

/-- Something is wrong right at the component with an index, or behind the last one. The bytes from
there on stand at an offset. -/
inductive FaultyAt [ScalarType S] :
    List (Ty S) → (index offset : Nat) → Bytes → List (Step S) → Fault → Prop
  /-- The component's segment cannot be read. -/
  | malformed {ts index offset bytes fault} (within : index < ts.length)
      (cut : Unreadable offset bytes fault) :
      FaultyAt ts index offset bytes [.malformed index (.tuple ts)] fault
  /-- The component's payload is wrong for its type. Offsets inside the payload are its own. -/
  | invalid {ts t index offset payload front rest path fault} (place : ts[index]? = some t)
      (spelled : SpellsSegment ReadAsNull (some payload) front)
      (wrong : Faulty t payload path fault) :
      FaultyAt ts index offset (front ++ rest) (.invalid index (.tuple ts) :: path) fault
  /-- Bytes follow the last component. -/
  | trailing {ts offset bytes} (more : bytes ≠ []) :
      FaultyAt ts ts.length offset bytes [] (.trailingData bytes.length)

end

def Step.index : Step S → Nat
  | malformed index _ | invalid index _ => index

/-- The place where the first path leads to comes before the other one, from the left and with what
is inside a component before what is behind it. A path that ends at a tuple leads behind all of its
components. -/
inductive Precedes : List (Step S) → List (Step S) → Prop
  | inside {step path} : Precedes (step :: path) []
  | left {step step' path path'} (before : step.index < step'.index) :
      Precedes (step :: path) (step' :: path')
  | deeper {step path path'} (others : Precedes path path') :
      Precedes (step :: path) (step :: path')

theorem Precedes.asymm {path path' : List (Step S)} (h : Precedes path path') :
    ¬Precedes path' path := by
  induction h with
  | inside => exact nofun
  | left before =>
      intro reverse
      cases reverse with
      | left before' => exact Nat.lt_asymm before before'
      | deeper => exact Nat.lt_irrefl _ before
  | deeper _ ih =>
      intro reverse
      cases reverse with
      | left before => exact Nat.lt_irrefl _ before
      | deeper others => exact ih others

/-- The outcome is the first of the faults, or success where there are none. -/
inductive Reports (faulty : List (Step S) → Fault → Prop) : Except (Failure S) Unit → Prop
  | valid (clear : ∀ path fault, ¬faulty path fault) : Reports faulty (.ok ())
  | first {path fault} (here : faulty path fault)
      (least : ∀ path' fault', faulty path' fault' →
        (path' = path ∧ fault' = fault) ∨ Precedes path path') :
      Reports faulty (.error ⟨path, fault⟩)

theorem Reports.congr {faulty faulty' : List (Step S) → Fault → Prop}
    {outcome : Except (Failure S) Unit}
    (same : ∀ path fault, faulty path fault ↔ faulty' path fault) (h : Reports faulty outcome) :
    Reports faulty' outcome := by
  cases h with
  | valid clear => exact .valid fun path fault wrong => clear path fault ((same _ _).mpr wrong)
  | first here least =>
      exact .first ((same _ _).mp here) fun path fault wrong =>
        least path fault ((same _ _).mpr wrong)

/-! ## What is read at a place -/

section Reading

variable {offset : Nat} {segment : Segment} {front rest bytes : Bytes} {fault fault' : Fault}

theorem Stops.ne_append {stop : Except Fault Unit} (stops : Stops offset bytes stop)
    (h : SpellsSegment ReadAsNull segment front) : bytes ≠ front ++ rest := by
  rintro rfl
  obtain ⟨r, read⟩ := stops.exists_readSegment
  rw [h.readSegment] at read
  cases stop with
  | ok | error => cases read

theorem Unreadable.unique (cut : Unreadable offset bytes fault)
    (cut' : Unreadable offset bytes fault') : fault = fault' := by
  have read := readSegment_eq_error_iff.mpr cut
  rw [readSegment_eq_error_iff.mpr cut'] at read
  cases read
  rfl

theorem Unreadable.ne_nil (cut : Unreadable offset bytes fault) : bytes ≠ [] := by
  cases cut with
  | word begun => exact begun
  | payload => exact List.append_ne_nil_of_left_ne_nil (List.cons_ne_nil _ _) _

end Reading

/-! ## From one component to the next -/

variable [ScalarType S]

section Walk

variable {ts : List (Ty S)} {t : Ty S} {index offset : Nat} {bytes front rest : Bytes}
  {segment : Segment} {path : List (Step S)} {fault cause : Fault}

namespace FaultyAt

theorem index_le (h : FaultyAt ts index offset bytes path fault) : index ≤ ts.length := by
  cases h with
  | malformed within => exact Nat.le_of_lt within
  | invalid place => exact Nat.le_of_lt (List.getElem?_eq_some_iff.mp place).1
  | trailing => exact Nat.le_refl _

theorem path_eq (h : FaultyAt ts index offset bytes path fault) :
    path = [] ∨ ∃ step others, path = step :: others ∧ step.index = index := by
  cases h with
  | malformed | invalid => exact .inr ⟨_, _, rfl, rfl⟩
  | trailing => exact .inl rfl

theorem not_nil (within : index < ts.length) : ¬FaultyAt ts index offset [] path fault := by
  generalize empty : [] = bytes
  intro h
  cases h with
  | malformed _ cut => exact cut.ne_nil empty.symm
  | invalid _ spelled => exact spelled.ne_nil (List.append_eq_nil_iff.mp empty.symm).1
  | trailing => exact Nat.lt_irrefl _ within

theorem iff_of_unreadable (within : index < ts.length) (cut : Unreadable offset bytes cause) :
    FaultyAt ts index offset bytes path fault ↔
      path = [.malformed index (.tuple ts)] ∧ fault = cause := by
  constructor
  · intro h
    cases h with
    | malformed _ cut' => exact ⟨rfl, cut'.unique cut⟩
    | invalid _ spelled => exact absurd rfl ((Stops.cut cut).ne_append spelled)
    | trailing => exact absurd within (Nat.lt_irrefl _)
  · rintro ⟨rfl, rfl⟩
    exact .malformed within cut

theorem iff_of_spells (place : ts[index]? = some t)
    (spelled : SpellsSegment ReadAsNull segment front) :
    FaultyAt ts index offset (front ++ rest) path fault ↔
      ∃ payload others, segment = some payload ∧
        path = .invalid index (.tuple ts) :: others ∧ Faulty t payload others fault := by
  constructor
  · generalize whole : front ++ rest = bytes
    intro h
    cases h with
    | malformed _ cut => exact absurd whole.symm ((Stops.cut cut).ne_append spelled)
    | invalid place' spelled' wrong =>
        obtain ⟨rfl, rfl, rfl⟩ := spelled.eq_of_append_eq spelled' whole
        cases place.symm.trans place'
        exact ⟨_, _, rfl, rfl, wrong⟩
    | trailing => simp at place
  · rintro ⟨payload, others, rfl, rfl, wrong⟩
    exact .invalid place spelled wrong

theorem length_iff :
    FaultyAt ts ts.length offset bytes path fault ↔
      bytes ≠ [] ∧ path = [] ∧ fault = .trailingData bytes.length := by
  constructor
  · intro h
    cases h with
    | malformed within => exact absurd within (Nat.lt_irrefl _)
    | invalid place => simp at place
    | trailing more => exact ⟨more, rfl, rfl⟩
  · rintro ⟨more, rfl, rfl⟩
    exact .trailing more

end FaultyAt

/-- Something is wrong at the component with an index, or further on. -/
def FaultyFrom (ts : List (Ty S)) (index offset : Nat) (bytes : Bytes) (path : List (Step S))
    (fault : Fault) : Prop :=
  ∃ segments front rest, bytes = front ++ rest ∧ Spells ReadAsNull segments front ∧
    FaultyAt ts (index + segments.length) (offset + front.length) rest path fault

theorem faulty_tuple_iff :
    Faulty (.tuple ts) bytes path fault ↔ FaultyFrom ts 0 0 bytes path fault := by
  constructor
  · intro h
    cases h with
    | tuple before here =>
        exact ⟨_, _, _, rfl, before, by simpa only [Nat.zero_add] using here⟩
  · rintro ⟨segments, front, rest, rfl, before, here⟩
    rw [Nat.zero_add, Nat.zero_add] at here
    exact .tuple before here

theorem FaultyAt.faultyFrom (h : FaultyAt ts index offset bytes path fault) :
    FaultyFrom ts index offset bytes path fault :=
  ⟨[], [], bytes, rfl, .nil, h⟩

namespace FaultyFrom

theorem path_eq (h : FaultyFrom ts index offset bytes path fault) :
    path = [] ∨ ∃ step others, path = step :: others ∧ index ≤ step.index := by
  obtain ⟨segments, front, rest, -, -, here⟩ := h
  rcases here.path_eq with empty | ⟨step, others, same, place⟩
  · exact .inl empty
  · exact .inr ⟨step, others, same, by omega⟩

/-- Where a segment can be read, what is wrong is wrong there or later. -/
theorem append_iff (spelled : SpellsSegment ReadAsNull segment front) :
    FaultyFrom ts index offset (front ++ rest) path fault ↔
      FaultyAt ts index offset (front ++ rest) path fault ∨
      FaultyFrom ts (index + 1) (offset + front.length) rest path fault := by
  constructor
  · rintro ⟨segments, passed, behind, same, before, here⟩
    cases before with
    | nil =>
        rw [List.nil_append] at same
        exact .inl (same ▸ here)
    | cons first others =>
        rw [List.append_assoc] at same
        obtain ⟨rfl, rfl, rfl⟩ := spelled.eq_of_append_eq first same
        refine .inr ⟨_, _, _, rfl, others, ?_⟩
        simpa only [List.length_cons, List.length_append, Nat.add_assoc, Nat.add_comm 1] using here
  · rintro (here | ⟨segments, passed, behind, rfl, others, here⟩)
    · exact here.faultyFrom
    · refine ⟨_, _, behind, (List.append_assoc _ _ _).symm, .cons spelled others, ?_⟩
      simpa only [List.length_cons, List.length_append, Nat.add_assoc, Nat.add_comm 1] using here

/-- Where no segment can be read, whatever is wrong is wrong there. -/
theorem stops_iff {stop : Except Fault Unit} (stops : Stops offset bytes stop) :
    FaultyFrom ts index offset bytes path fault ↔ FaultyAt ts index offset bytes path fault := by
  refine ⟨?_, FaultyAt.faultyFrom⟩
  rintro ⟨segments, passed, behind, rfl, before, here⟩
  cases before with
  | nil => exact here
  | cons first others => exact absurd (List.append_assoc _ _ _) (stops.ne_append first)

/-- Nothing comes behind the last component. -/
theorem length_iff :
    FaultyFrom ts ts.length offset bytes path fault ↔
      FaultyAt ts ts.length offset bytes path fault := by
  refine ⟨?_, FaultyAt.faultyFrom⟩
  rintro ⟨segments, passed, behind, rfl, before, here⟩
  cases before with
  | nil => exact here
  | cons first others =>
      have bounded := here.index_le
      rw [List.length_cons] at bounded
      omega

end FaultyFrom

/-- A fault inside a component comes before all that is behind the component. -/
theorem precedes_of_faultyFrom {step : Step S} {others : List (Step S)}
    (later : FaultyFrom ts (step.index + 1) offset bytes path fault) :
    Precedes (step :: others) path := by
  rcases later.path_eq with rfl | ⟨step', others', rfl, behind⟩
  · exact .inside
  · exact .left behind

theorem reports_unreadable (within : index < ts.length) (cut : Unreadable offset bytes cause) :
    Reports (FaultyFrom ts index offset bytes)
      (.error ((Failure.ofFault cause).below (.malformed index (.tuple ts)))) := by
  apply Reports.first (FaultyAt.malformed within cut).faultyFrom
  intro path fault wrong
  rw [FaultyFrom.stops_iff (.cut cut), FaultyAt.iff_of_unreadable within cut] at wrong
  exact .inl wrong

theorem reports_invalid {payload : Bytes} (place : ts[index]? = some t)
    (spelled : SpellsSegment ReadAsNull (some payload) front)
    (inside : Reports (Faulty t payload) (.error ⟨path, fault⟩)) :
    Reports (FaultyFrom ts index offset (front ++ rest))
      (.error ⟨.invalid index (.tuple ts) :: path, fault⟩) := by
  cases inside with
  | first here least =>
      apply Reports.first (FaultyAt.invalid place spelled here).faultyFrom
      intro path' fault' wrong
      rw [FaultyFrom.append_iff spelled, FaultyAt.iff_of_spells place spelled] at wrong
      rcases wrong with ⟨_, path', same, rfl, wrong⟩ | later
      · cases same
        rcases least _ _ wrong with ⟨rfl, rfl⟩ | before
        · exact .inl ⟨rfl, rfl⟩
        · exact .inr (.deeper before)
      · exact .inr (precedes_of_faultyFrom later)

/-- A component without a fault leaves the search to what is behind it. -/
theorem reports_clear {outcome : Except (Failure S) Unit} (place : ts[index]? = some t)
    (spelled : SpellsSegment ReadAsNull segment front)
    (clear : ∀ payload, segment = some payload → ∀ path fault, ¬Faulty t payload path fault)
    (behind : Reports (FaultyFrom ts (index + 1) (offset + front.length) rest) outcome) :
    Reports (FaultyFrom ts index offset (front ++ rest)) outcome := by
  apply behind.congr
  intro path fault
  rw [FaultyFrom.append_iff spelled, FaultyAt.iff_of_spells place spelled]
  refine (or_iff_right ?_).symm
  rintro ⟨payload, others, same, -, wrong⟩
  exact clear payload same others fault wrong

theorem reports_behind_last (type : Ty S) :
    Reports (FaultyFrom ts ts.length offset bytes)
      (Ty.validateFrom type index [] ⟨offset, bytes⟩) := by
  rw [Ty.validateFrom]
  cases bytes with
  | nil =>
      apply Reports.valid
      intro path fault wrong
      exact (FaultyAt.length_iff.mp (FaultyFrom.length_iff.mp wrong)).1 rfl
  | cons byte rest =>
      have more : byte :: rest ≠ [] := List.cons_ne_nil _ _
      apply Reports.first (FaultyAt.trailing more).faultyFrom
      intro path fault wrong
      exact .inl (FaultyAt.length_iff.mp (FaultyFrom.length_iff.mp wrong)).2

/-- The validator stops where the first fault is, because it has passed nothing but segments whose
payloads are valid. -/
theorem reports_validateFrom {later : List (Ty S)} (left : ts.drop index = later)
    (inside : ∀ t ∈ ts, ∀ payload, Reports (Faulty t payload) (t.validate payload))
    (bounded : index ≤ ts.length) :
    Reports (FaultyFrom ts index offset bytes)
      (Ty.validateFrom (.tuple ts) index later ⟨offset, bytes⟩) := by
  induction later generalizing index offset bytes with
  | nil =>
      have all : index = ts.length := by
        have none := List.drop_eq_nil_iff.mp left
        omega
      subst all
      exact reports_behind_last _
  | cons t later ih =>
      have place : ts[index]? = some t := by
        rw [← List.head?_drop, left, List.head?_cons]
      have within := (List.getElem?_eq_some_iff.mp place).1
      have others : ts.drop (index + 1) = later := by
        rw [← List.drop_drop, left, List.drop_one, List.tail_cons]
      have step := Reader.readsSegment ⟨offset, bytes⟩
      simp only [Ty.validateFrom]
      generalize Reader.readSegment ⟨offset, bytes⟩ = found at step
      cases step with
      | atEnd =>
          apply Reports.valid
          intro path fault wrong
          exact FaultyAt.not_nil within ((FaultyFrom.stops_iff .atEnd).mp wrong)
      | shortWord begun short => exact reports_unreadable within (.word begun short)
      | shortPayload present short => exact reports_unreadable within (.payload present short)
      | @item _ segment front rest spelled =>
          have behind := @ih (index + 1) (offset + front.length) rest others within
          cases segment with
          | none =>
              apply reports_clear place spelled _ behind
              intro payload present
              cases present
          | some payload =>
              dsimp only
              have checked := inside t (List.mem_of_getElem? place) payload
              generalize t.validate payload = outcome at checked
              cases checked with
              | valid clear =>
                  apply reports_clear place spelled _ behind
                  intro payload present
                  cases present
                  exact clear
              | first here least => exact reports_invalid place spelled (.first here least)

end Walk

theorem reports_validate (t : Ty S) (bytes : Bytes) :
    Reports (Faulty t bytes) (t.validate bytes) := by
  induction t generalizing bytes with
  | scalar s =>
      rw [Ty.validate]
      cases checked : ScalarType.validate s bytes with
      | ok =>
          apply Reports.valid
          intro path fault wrong
          cases wrong with
          | scalar refused => cases checked.symm.trans refused
      | error fault =>
          apply Reports.first (.scalar checked)
          intro path' fault' wrong
          cases wrong with
          | scalar refused =>
              cases checked.symm.trans refused
              exact .inl ⟨rfl, rfl⟩
  | tuple ts ih =>
      rw [Ty.validate]
      have walked : Reports (FaultyFrom ts 0 0 bytes)
          (Ty.validateFrom (.tuple ts) 0 ts (Reader.start bytes)) :=
        reports_validateFrom List.drop_zero ih (Nat.zero_le _)
      exact walked.congr fun path fault => faulty_tuple_iff.symm

/-- Bytes are accepted that are wrong nowhere. Others are refused for the place of theirs that comes
before all others, by the steps that lead to it and for the fault that is there. -/
theorem validate_reports_first (t : Ty S) (bytes : Bytes) :
    (t.validate bytes = .ok () ↔ ∀ path fault, ¬Faulty t bytes path fault) ∧
    ∀ path fault, t.validate bytes = .error ⟨path, fault⟩ ↔
      Faulty t bytes path fault ∧ ∀ path' fault', Faulty t bytes path' fault' →
        (path' = path ∧ fault' = fault) ∨ Precedes path path' := by
  have reports := reports_validate t bytes
  generalize t.validate bytes = outcome at reports
  cases reports with
  | valid clear =>
      refine ⟨⟨fun _ => clear, fun _ => rfl⟩, fun path fault => ⟨nofun, ?_⟩⟩
      rintro ⟨here, -⟩
      exact absurd here (clear path fault)
  | @first path fault here least =>
      refine ⟨⟨nofun, fun clear => absurd here (clear path fault)⟩, fun path' fault' => ⟨?_, ?_⟩⟩
      · rintro ⟨⟩
        exact ⟨here, least⟩
      · rintro ⟨here', least'⟩
        rcases least _ _ here' with ⟨rfl, rfl⟩ | before
        · rfl
        · rcases least' _ _ here with ⟨rfl, rfl⟩ | before'
          · rfl
          · exact absurd before' before.asymm

/-- A word of one byte inside the second component is reported, and not that the third component is
cut short. -/
theorem validate_reports_first_of_two :
    let t := Ty.tuple [.scalar Scalar.utf8, .tuple [.scalar .int32], .scalar .bytes]
    let blob := [0, 0, 0, 1, 97, 0, 0, 0, 5, 0, 0, 0, 1, 7, 0, 0]
    Faulty t blob [.malformed 2 t] (.truncatedLength 14 2) ∧
    Faulty t blob [.invalid 1 t, .invalid 0 (.tuple [.scalar .int32])] (.wordSize 1) ∧
    Precedes [.invalid 1 t, .invalid 0 (.tuple [.scalar .int32])] [.malformed 2 t] ∧
    t.validate blob =
      .error ⟨[.invalid 1 t, .invalid 0 (.tuple [.scalar .int32])], .wordSize 1⟩ := by
  intro t blob
  have reported : t.validate blob =
      .error ⟨[.invalid 1 t, .invalid 0 (.tuple [.scalar .int32])], .wordSize 1⟩ := rfl
  obtain ⟨here, least⟩ := ((validate_reports_first t blob).2 _ _).mp reported
  have before : Spells ReadAsNull [some [97], some [0, 0, 0, 1, 7]]
      [0, 0, 0, 1, 97, 0, 0, 0, 5, 0, 0, 0, 1, 7] :=
    .cons (@SpellsSegment.payload _ [97] ⟨1⟩ rfl)
      (.cons (@SpellsSegment.payload _ [0, 0, 0, 1, 7] ⟨5⟩ rfl) .nil)
  have cut : Unreadable 14 [0, 0] (.truncatedLength 14 2) :=
    .word (List.cons_ne_nil _ _) (Nat.lt_add_of_pos_right Nat.two_pos)
  have later : Faulty t blob [.malformed 2 t] (.truncatedLength 14 2) :=
    .tuple before (.malformed (by decide) cut)
  rcases least _ _ later with ⟨same, -⟩ | first
  · cases same
  · exact ⟨later, here, first, reported⟩

end TupleBlob
