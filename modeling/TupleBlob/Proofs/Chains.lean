import TupleBlob.Pipeline
import TupleBlob.Proofs.Json.Quoting
import TupleBlob.Proofs.Rebuild
import TupleBlob.Proofs.Text.RoundTrip

/-! # Chains of conversions never move a value

Each conversion has its own normal form: it rewrites the nulls of a tuple, or those of the tuples
inside too, or completes tuples besides. Main statements: what a step of a chain gives is a form of
a blob at the first one's place in the order, if the form before was; hence every blob on the way
is valid and at that place.
-/

namespace TupleBlob.Ty

open LengthWord Pipeline

variable {t : Ty Scalar} {ts : List (Ty Scalar)} {before after start : Bytes}

/-- The blob after is a value at the place of the blob before, and may be converted again. -/
structure Unmoved (t : Ty Scalar) (before after : Bytes) : Prop where
  valid : t.Valid after
  begun : t.BegunThroughout after
  rank_eq : t.rank before after = .eq

theorem Unmoved.refl (valid : t.Valid before) (begun : t.BegunThroughout before) :
    t.Unmoved before before :=
  ⟨valid, begun, Std.ReflCmp.compare_self⟩

theorem Unmoved.trans {last : Bytes} (h : t.Unmoved before after) (h' : t.Unmoved after last) :
    t.Unmoved before last :=
  ⟨h'.valid, h'.begun, (transCmp_rank t).eq_trans h.rank_eq h'.rank_eq⟩

/-! ## Single conversions -/

theorem unmoved_of_rebuild (valid : (Ty.tuple ts).Valid before)
    (begun : BegunThroughout (.tuple ts) before)
    (built : (split ts.length before).bind encodeSegments = .ok after) :
    (Ty.tuple ts).Unmoved before after := by
  obtain ⟨segments, spelled, aligned⟩ := valid_tuple_iff.mp valid
  rw [spelled.split_eq aligned.length_le] at built
  have written := spells_of_encodeSegments built
  refine ⟨valid_tuple_iff.mpr ⟨segments, written.readable, aligned⟩, ?_, ?_⟩
  · refine .tuple (fun components => ?_) written.readable (begun.inside_of_spells spelled)
    rw [Ne, written.eq_nil_iff, ← spelled.eq_nil_iff]
    exact begun.here components
  · have places : rankLists ts segments segments = .eq := Std.ReflCmp.compare_self
    rw [rank_of_spells spelled written.readable aligned.length_le aligned.length_le, places,
      Std.compare_self]
    rfl

theorem unmoved_of_ofText {text : String} (valid : t.Valid before)
    (begun : t.BegunThroughout before) (shown : t.toText before = .ok text)
    (read : t.ofText text = .ok after) : t.Unmoved before after := by
  have canonizes := rereads t before text after valid begun shown read
  exact ⟨canonizes.valid valid, canonizes.begun begun, canonizes.rank_eq⟩

theorem unmoved_of_ofJson {json quoted : Json} (shallow : (Ty.tuple ts).depth ≤ Json.maxNesting)
    (valid : (Ty.tuple ts).Valid before) (begun : BegunThroughout (.tuple ts) before)
    (shown : (Ty.tuple ts).toJson before = .ok json) (quotes : Quotes json quoted)
    (read : (Ty.tuple ts).ofJson quoted = .ok after) : (Ty.tuple ts).Unmoved before after := by
  have direct := ofJson_of_quotes quotes (plain_of_toJson shallow shown) read
  obtain ⟨json', shown', restores⟩ := exists_restores (.tuple ts) valid
  cases shown.symm.trans shown'
  rw [direct] at restores
  cases restores with
  | completed completes =>
      exact ⟨completes.valid valid, completes.begun, completes.rank_eq begun⟩

/-! ## Steps and chains -/

/-- What a step makes of a form. To put a text into a JSON string is left out: it may be read as
any value at all. -/
inductive Converts (t : Ty Scalar) : Form → Form → Prop
  | toText {v text} (shown : t.toText v = .ok text) : Converts t (.blob v) (.text text)
  | toJson {v json} (shown : t.toJson v = .ok json) : Converts t (.blob v) (.json json)
  | ofText {text v} (read : t.ofText text = .ok v) : Converts t (.text text) (.blob v)
  | ofJson {json v} (read : t.ofJson json = .ok v) : Converts t (.json json) (.blob v)
  | rebuild {v built} (rebuilt : (split t.components.length v).bind encodeSegments = .ok built) :
      Converts t (.blob v) (.blob built)
  | stringify {json} : Converts t (.json json) (.json (.str json.compact))

section Steps

variable {p p' : Pipeline} {action : Action} {entry : Entry}

theorem exists_of_convert {α : Type} {wrap : α → Form} {result : Except Fault α}
    (given : p.convert wrap result = (.ok (entry, p') : Except (Stop Scalar) _)) :
    ∃ value, result = .ok value ∧ entry = .form (wrap value) ∧ p' = ⟨wrap value, p.mark⟩ := by
  cases result with
  | error => cases given
  | ok value =>
      cases given
      exact ⟨value, rfl, rfl, rfl⟩

/-- A step converts the form and reports it, or leaves it as it is. -/
theorem converts_of_step (kept : action ≠ .asJson)
    (stepped : p.step t action = .ok (entry, p')) :
    (entry = .form p'.form ∧ Converts t p.form p'.form) ∨
      p'.form = p.form ∧ ∀ form, entry ≠ .form form := by
  obtain ⟨form, mark⟩ := p
  cases form with
  | blob v =>
      cases action with
      | toText =>
          obtain ⟨text, shown, rfl, rfl⟩ := exists_of_convert stepped
          exact .inl ⟨rfl, .toText shown⟩
      | toJson =>
          obtain ⟨json, shown, rfl, rfl⟩ := exists_of_convert stepped
          exact .inl ⟨rfl, .toJson shown⟩
      | rebuild =>
          cases t with
          | scalar => cases stepped
          | tuple ts =>
              obtain ⟨built, rebuilt, rfl, rfl⟩ := exists_of_convert stepped
              exact .inl ⟨rfl, .rebuild rebuilt⟩
      | validate =>
          simp only [step] at stepped
          split at stepped
          · cases stepped
            exact .inr ⟨rfl, nofun⟩
          · cases stepped
      | mark =>
          cases stepped
          exact .inr ⟨rfl, nofun⟩
      | compareMark =>
          simp only [step] at stepped
          split at stepped
          · cases stepped
          · split at stepped
            · cases stepped
              exact .inr ⟨rfl, nofun⟩
            · cases stepped
      | ofText | ofJson | stringify => cases stepped
      | asJson => exact absurd rfl kept
  | text text =>
      cases action with
      | ofText =>
          obtain ⟨v, read, rfl, rfl⟩ := exists_of_convert stepped
          exact .inl ⟨rfl, .ofText read⟩
      | asJson => exact absurd rfl kept
      | toText | toJson | ofJson | rebuild | stringify | validate | mark | compareMark =>
          cases stepped
  | json json =>
      cases action with
      | ofJson =>
          obtain ⟨v, read, rfl, rfl⟩ := exists_of_convert stepped
          exact .inl ⟨rfl, .ofJson read⟩
      | stringify =>
          cases stepped
          exact .inl ⟨rfl, .stringify⟩
      | asJson => exact absurd rfl kept
      | toText | toJson | ofText | rebuild | validate | mark | compareMark => cases stepped

/-- A form of a blob at the place of the first one. -/
inductive Carried (ts : List (Ty Scalar)) (start : Bytes) : Form → Prop
  | blob {v} (unmoved : (Ty.tuple ts).Unmoved start v) : Carried ts start (.blob v)
  | text {v text} (unmoved : (Ty.tuple ts).Unmoved start v)
      (shown : (Ty.tuple ts).toText v = .ok text) : Carried ts start (.text text)
  | json {v json quoted} (unmoved : (Ty.tuple ts).Unmoved start v)
      (shown : (Ty.tuple ts).toJson v = .ok json) (quotes : Quotes json quoted) :
      Carried ts start (.json quoted)

theorem Carried.converts {form form' : Form} (shallow : (Ty.tuple ts).depth ≤ Json.maxNesting)
    (carried : Carried ts start form) (converts : Converts (.tuple ts) form form') :
    Carried ts start form' := by
  cases carried with
  | blob unmoved =>
      cases converts with
      | toText shown => exact .text unmoved shown
      | toJson shown => exact .json unmoved shown .itself
      | rebuild rebuilt =>
          exact .blob (unmoved.trans (unmoved_of_rebuild unmoved.valid unmoved.begun rebuilt))
  | text unmoved shown =>
      cases converts with
      | ofText read =>
          exact .blob (unmoved.trans (unmoved_of_ofText unmoved.valid unmoved.begun shown read))
  | json unmoved shown quotes =>
      cases converts with
      | stringify => exact .json unmoved shown (.text quotes)
      | ofJson read =>
          have same := unmoved_of_ofJson shallow unmoved.valid unmoved.begun shown quotes read
          exact .blob (unmoved.trans same)

theorem carried_of_run {actions : List Action} {form : Form}
    (shallow : (Ty.tuple ts).depth ≤ Json.maxNesting) (kept : .asJson ∉ actions)
    (carried : Carried ts start p.form)
    (reported : .form form ∈ (p.run (.tuple ts) actions).1) : Carried ts start form := by
  induction actions generalizing p with
  | nil => cases reported
  | cons action actions ih =>
      obtain ⟨first, later⟩ := List.ne_and_not_mem_of_not_mem_cons kept
      simp only [run] at reported
      split at reported
      · cases reported
      · rename_i entry next stepped
        rcases converts_of_step (Ne.symm first) stepped with ⟨rfl, converts⟩ | ⟨same, silent⟩
        · have there := carried.converts shallow converts
          rcases List.mem_cons.mp reported with head | inside
          · cases head
            exact there
          · exact ih later there inside
        · rcases List.mem_cons.mp reported with head | inside
          · exact absurd head.symm (silent form)
          · exact ih later (same ▸ carried) inside

end Steps

/-- A way from a blob to another form and back. -/
inductive Trip
  | rebuild
  | text
  | json
  /-- By way of a JSON string with the text of the JSON. -/
  | jsonText

def Trip.actions : Trip → List Action
  | .rebuild => [.rebuild]
  | .text => [.toText, .ofText]
  | .json => [.toJson, .ofJson]
  | .jsonText => [.toJson, .stringify, .ofJson]

theorem Trip.asJson_notMem (trip : Trip) : .asJson ∉ trip.actions := by
  cases trip <;> simp [actions]

/-- Trips never move a value in the order: every blob that is reached, before a step fails or the
trips are over, is valid and equal to the first one. -/
theorem order_of_trips {trips : List Trip} {reached : Bytes}
    (shallow : (Ty.tuple ts).depth ≤ Json.maxNesting) (valid : (Ty.tuple ts).Valid start)
    (begun : BegunThroughout (.tuple ts) start)
    (reports : .form (.blob reached) ∈
      (run (.tuple ts) (.start (.blob start)) (trips.flatMap Trip.actions)).1) :
    (Ty.tuple ts).Valid reached ∧ (Ty.tuple ts).order start reached = .ok .eq := by
  have kept : .asJson ∉ trips.flatMap Trip.actions := by
    simp [Trip.asJson_notMem]
  have carried := carried_of_run shallow kept (.blob (.refl valid begun)) reports
  cases carried with
  | blob unmoved =>
      refine ⟨unmoved.valid, ?_⟩
      rw [order_eq_rank valid unmoved.valid, unmoved.rank_eq]

/-- The null of the outer tuple is rewritten on the way, and the inner tuple is completed. -/
theorem order_of_trips_nested :
    (Ty.tuple [.tuple [.scalar Scalar.int32, .scalar .utf8], .scalar .utf8]).Valid
      [0, 0, 0, 12, 0, 0, 0, 4, 0, 0, 0, 7, 255, 255, 255, 255, 255, 255, 255, 255] ∧
    (Ty.tuple [.tuple [.scalar Scalar.int32, .scalar .utf8], .scalar .utf8]).order
      [0, 0, 0, 8, 0, 0, 0, 4, 0, 0, 0, 7, 255, 255, 255, 254]
      [0, 0, 0, 12, 0, 0, 0, 4, 0, 0, 0, 7, 255, 255, 255, 255, 255, 255, 255, 255] =
        .ok .eq := by
  have valid : (Ty.tuple [.tuple [.scalar Scalar.int32, .scalar .utf8], .scalar .utf8]).Valid
      [0, 0, 0, 8, 0, 0, 0, 4, 0, 0, 0, 7, 255, 255, 255, 254] := rfl
  have validInside : (Ty.tuple [.scalar Scalar.int32, .scalar .utf8]).Valid
      [0, 0, 0, 4, 0, 0, 0, 7] := rfl
  obtain ⟨spelled, -⟩ := spells_of_split valid rfl
  obtain ⟨spelledInside, -⟩ := spells_of_split validInside rfl
  have begun : BegunThroughout
      (.tuple [.tuple [.scalar Scalar.int32, .scalar .utf8], .scalar .utf8])
      [0, 0, 0, 8, 0, 0, 0, 4, 0, 0, 0, 7, 255, 255, 255, 254] := by
    refine .tuple (fun _ => List.cons_ne_nil _ _) spelled (.payload ?_ (.null .nil))
    exact .tuple (fun _ => List.cons_ne_nil _ _) spelledInside (.payload .scalar .nil)
  have reports : .form (.blob [0, 0, 0, 12, 0, 0, 0, 4, 0, 0, 0, 7,
      255, 255, 255, 255, 255, 255, 255, 255]) ∈
      (run (.tuple [.tuple [.scalar Scalar.int32, .scalar .utf8], .scalar .utf8])
        (.start (.blob [0, 0, 0, 8, 0, 0, 0, 4, 0, 0, 0, 7, 255, 255, 255, 254]))
        ([Trip.text, .jsonText, .rebuild].flatMap Trip.actions)).1 := by
    decide +kernel
  exact order_of_trips (by decide) valid begun reports

end TupleBlob.Ty
