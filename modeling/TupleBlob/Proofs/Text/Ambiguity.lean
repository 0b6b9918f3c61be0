import TupleBlob.Proofs.Text.Splitting
import TupleBlob.Scalar

/-! # Texts refused as ambiguous

A printed tuple has colons where its texts have them, each with a backslash put before it, and a
delimiter after each field but the last. What such a joint is read as depends on whether the run of
backslashes that the text has before it is odd; a text is refused if that run is not empty. Main
statement: a tuple is refused exactly where the run before some joint is not empty, and its fields
are split off again exactly where the run before every joint is even. A text with two backslashes
before a colon is therefore refused although it could be read again.
-/

namespace TupleBlob.Fields

theorem getLast?_ne_backslash_iff {text : List Char} :
    text.getLast? ≠ some '\\' ↔ run text = 0 := by
  induction text using List.reverseRecOn with
  | nil => simp [run]
  | append_singleton text c =>
      rw [run_concat]
      simp

theorem isAmbiguous_eq_false_iff {text : List Char} {isLast : Bool} :
    isAmbiguous text isLast = false ↔
      (∀ front, front ++ [':'] <+: text → run front = 0) ∧ (isLast = false → run text = 0) := by
  simp only [isAmbiguous, Bool.or_eq_false_iff, hasGuardedColon_eq_false_iff,
    ← getLast?_ne_backslash_iff]
  cases isLast <;> simp

theorem undelimited_escape_iff_even {text : List Char} :
    Undelimited false (escape text) ↔
      ∀ front, front ++ [':'] <+: text → run front % 2 = 0 := by
  simp only [undelimited_escape_iff, endsOdd_eq_false_iff]

/-! ## Joints -/

/-- The part of the texts that comes right before a joint: before a colon in a text, or a whole text
that another field comes after. A null has no text. -/
inductive Joint : List (Option String) → List Char → Prop
  | colon {text front others} (before : front ++ [':'] <+: text.toList) :
      Joint (some text :: others) front
  | delimiter {text next others} : Joint (some text :: next :: others) text.toList
  | later {first others front} (joint : Joint others front) : Joint (first :: others) front

section Joint

variable {holds : List Char → Prop} {others : List (Option String)}

theorem not_joint_nil (front : List Char) : ¬Joint [] front := nofun

theorem forall_joint_null :
    (∀ front, Joint (none :: others) front → holds front) ↔
      ∀ front, Joint others front → holds front := by
  constructor
  · intro all front joint
    exact all front (.later joint)
  · intro all front joint
    cases joint with
    | later joint => exact all front joint

theorem forall_joint_text {text : String} :
    (∀ front, Joint (some text :: others) front → holds front) ↔
      (∀ front, front ++ [':'] <+: text.toList → holds front) ∧
        (others ≠ [] → holds text.toList) ∧ ∀ front, Joint others front → holds front := by
  constructor
  · intro all
    refine ⟨fun front before => all front (.colon before), fun more => ?_,
      fun front joint => all front (.later joint)⟩
    obtain ⟨next, rest, rfl⟩ := List.exists_cons_of_ne_nil more
    exact all _ .delimiter
  · rintro ⟨inside, whole, later⟩ front joint
    cases joint with
    | colon before => exact inside front before
    | delimiter => exact whole (List.cons_ne_nil _ _)
    | later joint => exact later front joint

/-- The guard looks at the joints of one text; there is one behind it where other texts follow. -/
theorem forall_joint_text_empty {text : String} :
    (∀ front, Joint (some text :: others) front → run front = 0) ↔
      isAmbiguous text.toList others.isEmpty = false ∧
        ∀ front, Joint others front → run front = 0 := by
  rw [forall_joint_text, isAmbiguous_eq_false_iff, List.isEmpty_eq_false_iff, and_assoc]

end Joint

end TupleBlob.Fields

namespace TupleBlob.Ty

open Fields

variable {S : Type} [ScalarType S]

/-! ## Printed tuples -/

/-- The texts of the segments, as their components print them. -/
inductive Texts : List (Ty S) → List Segment → List (Option String) → Prop
  | nil {ts} : Texts ts [] []
  | null {t ts segments texts} (others : Texts ts segments texts) :
      Texts (t :: ts) (none :: segments) (none :: texts)
  | payload {t : Ty S} {ts payload text segments texts} (printed : t.toText payload = .ok text)
      (others : Texts ts segments texts) :
      Texts (t :: ts) (some payload :: segments) (some text :: texts)

/-- The field that shows a text, or a null. -/
def field : Option String → List Char
  | none => nullField
  | some text => escape text.toList

theorem separable_field_iff {texts : List (Option String)} :
    Separable (texts.map field) ↔
      texts ≠ [] ∧ ∀ front, Joint texts front → run front % 2 = 0 := by
  induction texts with
  | nil =>
      constructor
      · intro separable
        cases separable
      · rintro ⟨present, -⟩
        exact absurd rfl present
  | cons first others ih =>
      have more : others.map field ≠ [] ↔ others ≠ [] := by
        simp
      rw [List.map_cons, separable_cons_iff, ih, more]
      cases first with
      | none =>
          have whole : Undelimited false nullField := by
            simp [nullField, Undelimited]
          have closed : endsOdd false nullField = false := rfl
          rw [forall_joint_null]
          cases others with
          | nil => simp [field, whole, not_joint_nil]
          | cons next rest => simp [field, whole, closed]
      | some text =>
          rw [forall_joint_text, field, undelimited_escape_iff_even, endsOdd_escape_eq,
            endsOdd_eq_false_iff]
          cases others with
          | nil => simp [not_joint_nil]
          | cons next rest => simp

theorem Texts.isEmpty_eq {ts : List (Ty S)} {segments : List Segment} {texts : List (Option String)}
    (printed : Texts ts segments texts) : segments.isEmpty = texts.isEmpty := by
  cases printed <;> rfl

section Segments

variable {ts : List (Ty S)} {segments : List Segment} {texts : List (Option String)}

theorem fieldsFrom_of_empty (printed : Texts ts segments texts)
    (empty : ∀ front, Joint texts front → run front = 0) (index : Nat) :
    fieldsFrom index ts segments = .ok (texts.map field) := by
  induction printed generalizing index with
  | nil => simp [fieldsFrom]
  | null _ ih =>
      have others := ih (forall_joint_null.mp empty) (index + 1)
      simp [fieldsFrom, others, Except.map, field]
  | payload printed rest ih =>
      obtain ⟨clear, later⟩ := forall_joint_text_empty.mp empty
      have others := ih later (index + 1)
      simp [fieldsFrom, printed, rest.isEmpty_eq, clear, others, Except.map, field]

/-- The fault names a component and its text. -/
theorem fieldsFrom_of_not_empty (printed : Texts ts segments texts)
    (guarded : ¬∀ front, Joint texts front → run front = 0) (index : Nat) :
    ∃ place text, texts[place]? = some (some text) ∧
      fieldsFrom index ts segments = .error (.ambiguousText (index + place) text) := by
  induction printed generalizing index with
  | nil => exact absurd (fun front joint => absurd joint (not_joint_nil front)) guarded
  | null _ ih =>
      rw [forall_joint_null] at guarded
      obtain ⟨place, text, here, refused⟩ := ih guarded (index + 1)
      refine ⟨place + 1, text, here, ?_⟩
      simp [fieldsFrom, refused, Except.map, Nat.add_assoc, Nat.add_comm 1]
  | @payload t ts payload text segments texts printed rest ih =>
      simp only [fieldsFrom, printed, rest.isEmpty_eq]
      cases ambiguous : isAmbiguous text.toList texts.isEmpty with
      | true => exact ⟨0, text, rfl, by simp⟩
      | false =>
          have later : ¬∀ front, Joint texts front → run front = 0 := by
            intro later
            exact guarded (forall_joint_text_empty.mpr ⟨ambiguous, later⟩)
          obtain ⟨place, text, here, refused⟩ := ih later (index + 1)
          refine ⟨place + 1, text, here, ?_⟩
          simp [refused, Except.map, Nat.add_assoc, Nat.add_comm 1]

/-- A tuple whose components are printed is refused exactly where the run before some joint of their
texts is not empty, and otherwise shows their fields. Those are split off again exactly where there
is one and the run before every joint is even. -/
theorem toText_ambiguous_iff {blob : Bytes} (divided : split ts.length blob = .ok segments)
    (printed : Texts ts segments texts) :
    ((∃ index text, (Ty.tuple ts).toText blob = .error (.ambiguousText index text)) ↔
        ∃ front, Joint texts front ∧ 0 < run front) ∧
      ((∀ front, Joint texts front → run front = 0) →
        (Ty.tuple ts).toText blob = .ok (String.ofList (join (texts.map field)))) ∧
      (Fields.split (join (texts.map field)) = texts.map field ↔
        texts ≠ [] ∧ ∀ front, Joint texts front → run front % 2 = 0) := by
  have guarded_iff : (∃ front, Joint texts front ∧ 0 < run front) ↔
      ¬∀ front, Joint texts front → run front = 0 := by
    simp only [not_forall, exists_prop, Nat.pos_iff_ne_zero]
  rw [guarded_iff, toText, divided]
  refine ⟨⟨?_, ?_⟩, ?_, split_join_iff.trans separable_field_iff⟩
  · rintro ⟨index, text, refused⟩ empty
    simp only [fieldsFrom_of_empty printed empty, Except.map] at refused
    cases refused
  · intro guarded
    obtain ⟨place, text, -, refused⟩ := fieldsFrom_of_not_empty printed guarded 0
    exact ⟨0 + place, text, by simp only [refused, Except.map]⟩
  · intro empty
    simp only [fieldsFrom_of_empty printed empty, Except.map]

end Segments

/-- The text of the first component ends in a backslash, and another field comes after it. The tuple
is refused, and its fields would not be split off again. -/
theorem toText_ambiguous_before_delimiter :
    Joint [some "a\\", some "b"] ['a', '\\'] ∧ run ['a', '\\'] = 1 ∧
      (∃ index text, (Ty.tuple [.scalar Scalar.utf8, .tuple [.scalar .utf8]]).toText
        [0, 0, 0, 2, 97, 92, 0, 0, 0, 5, 0, 0, 0, 1, 98] = .error (.ambiguousText index text)) ∧
      Fields.split (join ([some "a\\", some "b"].map field)) ≠
        [some "a\\", some "b"].map field := by
  have printed : Texts [.scalar Scalar.utf8, .tuple [.scalar .utf8]]
      [some [97, 92], some [0, 0, 0, 1, 98]] [some "a\\", some "b"] :=
    .payload (by decide +kernel) (.payload (by decide +kernel) .nil)
  have joint : Joint [some "a\\", some "b"] ['a', '\\'] := .delimiter
  have one : run ['a', '\\'] = 1 := by decide
  obtain ⟨refused, -, divides⟩ := @toText_ambiguous_iff _ _ _ _ _
    [0, 0, 0, 2, 97, 92, 0, 0, 0, 5, 0, 0, 0, 1, 98] rfl printed
  refine ⟨joint, one, refused.mpr ⟨_, joint, by rw [one]; decide⟩, ?_⟩
  intro same
  have even := (divides.mp same).2 _ joint
  rw [one] at even
  cases even

/-- Two backslashes before a colon are refused, although the field could be split off again. -/
theorem toText_refuses_what_splits :
    ¬∀ (ts : List (Ty Scalar)) (blob : Bytes) (segments : List Segment)
        (texts : List (Option String)),
      split ts.length blob = .ok segments → Texts ts segments texts →
      (∃ index text, (Ty.tuple ts).toText blob = .error (.ambiguousText index text)) →
        Fields.split (join (texts.map field)) ≠ texts.map field := by
  intro lost
  have printed : Texts [.scalar Scalar.utf8] [some [92, 92, 58]] [some "\\\\:"] :=
    .payload (by decide +kernel) .nil
  apply lost [.scalar .utf8] [0, 0, 0, 3, 92, 92, 58] _ _ rfl printed
  · exact ⟨0, "\\\\:", by decide +kernel⟩
  · decide +kernel

end TupleBlob.Ty
