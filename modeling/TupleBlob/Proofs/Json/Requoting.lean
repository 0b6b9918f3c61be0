import TupleBlob.Proofs.Json.Quoting

/-! # Items given by their text

A tuple may be given by JSON or by a JSON string with its text, and so may each tuple inside it,
down through the arrays for the tuples around it. Main statement: a string with the text of JSON
that is no string is read as the JSON itself, faults included, and giving items by their text does
not change what is read from an array.
-/

namespace TupleBlob

namespace Json

/-! ## Nesting -/

mutual

/-- How deep arrays and objects are nested. -/
def nesting : Json → Nat
  | .arr items => nestingItems items + 1
  | .obj fields => nestingFields fields + 1
  | .null | .bool _ | .num _ | .str _ => 0

def nestingItems : List Json → Nat
  | [] => 0
  | item :: items => max item.nesting (nestingItems items)

def nestingFields : List (String × Json) → Nat
  | [] => 0
  | (_, value) :: fields => max value.nesting (nestingFields fields)

end

theorem nestingItems_le_iff {items : List Json} {n : Nat} :
    nestingItems items ≤ n ↔ ∀ item ∈ items, item.nesting ≤ n := by
  induction items with
  | nil => simp [nestingItems]
  | cons item items ih => rw [nestingItems, Nat.max_le, ih, List.forall_mem_cons]

theorem nestingFields_le_iff {fields : List (String × Json)} {n : Nat} :
    nestingFields fields ≤ n ↔ ∀ field ∈ fields, field.2.nesting ≤ n := by
  induction fields with
  | nil => simp [nestingFields]
  | cons field fields ih => rw [nestingFields, Nat.max_le, ih, List.forall_mem_cons]

namespace Plain

variable {depth n : Nat} {json : Json}

theorem nesting_le (plain : Plain depth json) : json.nesting ≤ depth := by
  induction plain with
  | null | bool | int | str => exact Nat.zero_le _
  | arr _ ih =>
      rw [nesting]
      exact Nat.succ_le_succ (nestingItems_le_iff.mpr ih)
  | obj _ _ ih =>
      rw [nesting]
      exact Nat.succ_le_succ (nestingFields_le_iff.mpr ih)

theorem of_nesting_le (plain : Plain depth json) (shallow : json.nesting ≤ n) : Plain n json := by
  induction plain generalizing n with
  | null => exact .null
  | bool => exact .bool
  | int low high => exact .int low high
  | str => exact .str
  | arr _ ih =>
      rw [nesting] at shallow
      cases n with
      | zero => cases shallow
      | succ n =>
          have inside := nestingItems_le_iff.mp (Nat.le_of_succ_le_succ shallow)
          exact .arr fun item member => ih item member (inside item member)
  | obj rising _ ih =>
      rw [nesting] at shallow
      cases n with
      | zero => cases shallow
      | succ n =>
          have inside := nestingFields_le_iff.mp (Nat.le_of_succ_le_succ shallow)
          exact .obj rising fun field member => ih field member (inside field member)

theorem items {items : List Json} (plain : Plain depth (.arr items)) :
    ∀ item ∈ items, Plain depth item := by
  intro item member
  cases plain with
  | arr inside =>
      have here := inside item member
      exact here.of_nesting_le (Nat.le_succ_of_le here.nesting_le)

end Plain

end Json

namespace Ty

open Json

/-- The JSON is no string. -/
def Bare (json : Json) : Prop := ∀ text, json ≠ .str text

/-- The second items are the first, except that the items of tuples may be strings with their text,
and that items may be in the relation `inside`. A null and a string stay what they are. -/
inductive RequotedItems (inside : Ty Scalar → Json → Json → Prop) :
    List (Ty Scalar) → (before after : List Json) → Prop
  | same {ts items} : RequotedItems inside ts items items
  | kept {t ts item item' items items'} (first : inside t item item')
      (others : RequotedItems inside ts items items') :
      RequotedItems inside (t :: ts) (item :: items) (item' :: items')
  | quoted {us ts item item' items items'} (present : item ≠ .null) (bare : Bare item)
      (first : inside (.tuple us) item item') (others : RequotedItems inside ts items items') :
      RequotedItems inside (.tuple us :: ts) (item :: items) (.str item'.compact :: items')

/-- JSON for the type in which items at any depth are given by their text. -/
inductive Requoted : Ty Scalar → (before after : Json) → Prop
  | same {t json} : Requoted t json json
  | arr {ts items items'} (inside : RequotedItems Requoted ts items items') :
      Requoted (.tuple ts) (.arr items) (.arr items')

variable {ts : List (Ty Scalar)} {json json' : Json} {items items' : List Json}

/-! ## Strings with the text of JSON -/

theorem bare_arr (items : List Json) : Bare (.arr items) := fun _ => Json.noConfusion

theorem decodeOnce_of_bare (bare : Bare json) : decodeOnce json = .ok json := by
  cases json with
  | str text => exact absurd rfl (bare text)
  | null | bool | num | arr | obj => rfl

theorem decodeOnce_compact (plain : Plain maxNesting json) :
    decodeOnce (.str json.compact) = .ok json := by
  simp only [decodeOnce, parse_compact plain, Except.mapError]

theorem termsOfJson_compact (plain : Plain maxNesting json) (bare : Bare json) :
    termsOfJson ts (.str json.compact) = termsOfJson ts json := by
  rw [termsOfJson, termsOfJson, decodeOnce_compact plain, decodeOnce_of_bare bare]

theorem ofJson_compact (plain : Plain maxNesting json) (bare : Bare json) :
    (Ty.tuple ts).ofJson (.str json.compact) = (Ty.tuple ts).ofJson json := by
  rw [ofJson_eq_bind_termsOfJson, ofJson_eq_bind_termsOfJson, termsOfJson_compact plain bare]

theorem termsOfJson_of_parse_str {text inner : String} (parsed : parse text = .ok (.str inner)) :
    termsOfJson ts (.str text) = .error (.notAList (.str inner)) := by
  simp only [termsOfJson, decodeOnce, parsed, Except.mapError, Except.bind, listOf]

/-! ## Items -/

theorem RequotedItems.length_eq {inside : Ty Scalar → Json → Json → Prop}
    (h : RequotedItems inside ts items items') : items'.length = items.length := by
  induction h with
  | same => rfl
  | kept _ _ ih | quoted _ _ _ _ ih => rw [List.length_cons, ih, List.length_cons]

theorem RequotedItems.forall_plain {inside : Ty Scalar → Json → Json → Prop} {depth : Nat}
    (h : RequotedItems inside ts items items')
    (keeps : ∀ t ∈ ts, ∀ item item', inside t item item' → Plain depth item → Plain depth item')
    (plain : ∀ item ∈ items, Plain depth item) : ∀ item ∈ items', Plain depth item := by
  induction h with
  | same => exact plain
  | kept first _ ih =>
      obtain ⟨keepsFirst, keepsOthers⟩ := List.forall_mem_cons.mp keeps
      obtain ⟨here, later⟩ := List.forall_mem_cons.mp plain
      exact List.forall_mem_cons.mpr ⟨keepsFirst _ _ first here, ih keepsOthers later⟩
  | quoted _ _ _ _ ih =>
      obtain ⟨-, keepsOthers⟩ := List.forall_mem_cons.mp keeps
      obtain ⟨-, later⟩ := List.forall_mem_cons.mp plain
      exact List.forall_mem_cons.mpr ⟨.str, ih keepsOthers later⟩

namespace Requoted

variable {t : Ty Scalar}

theorem eq_null_iff (h : Requoted t json json') : json' = .null ↔ json = .null := by
  cases h with
  | same => exact Iff.rfl
  | arr => simp

theorem bare (h : Requoted t json json') (bare : Bare json) : Bare json' := by
  cases h with
  | same => exact bare
  | arr => exact bare_arr _

theorem plain {depth : Nat} (h : Requoted t json json') (plain : Plain depth json) :
    Plain depth json' := by
  induction t generalizing depth json json' with
  | scalar s =>
      cases h
      exact plain
  | tuple ts ih =>
      cases h with
      | same => exact plain
      | arr inside =>
          cases plain with
          | arr all => exact .arr (inside.forall_plain (fun t ht _ _ => ih t ht) all)

end Requoted

theorem toOption_ofItems (h : RequotedItems Requoted ts items items')
    (plain : ∀ item ∈ items, Plain maxNesting item)
    (alike : ∀ t ∈ ts, ∀ item item', Requoted t item item' → Plain maxNesting item →
      (t.ofJson item').toOption = (t.ofJson item).toOption) :
    (ofItems ts items').toOption = (ofItems ts items).toOption := by
  induction h with
  | same => rfl
  | @kept t ts item item' items items' first _ ih =>
      obtain ⟨here, later⟩ := List.forall_mem_cons.mp plain
      obtain ⟨alikeFirst, alikeOthers⟩ := List.forall_mem_cons.mp alike
      have others := ih later alikeOthers
      by_cases null : item = .null
      · obtain rfl := first.eq_null_iff.mpr null
        subst null
        rw [ofItems_null, ofItems_null, toOption_map, toOption_map, others]
      · have null' : item' ≠ .null := mt first.eq_null_iff.mp null
        rw [ofItems_cons t null, ofItems_cons t null', toOption_bind, toOption_bind]
        simp only [toOption_map, others, alikeFirst item item' first here]
  | @quoted us ts item item' items items' present bare first _ ih =>
      obtain ⟨here, later⟩ := List.forall_mem_cons.mp plain
      obtain ⟨alikeFirst, alikeOthers⟩ := List.forall_mem_cons.mp alike
      have others := ih later alikeOthers
      rw [ofItems_cons _ present, ofItems_cons _ Json.noConfusion,
        ofJson_compact (first.plain here) (first.bare bare), toOption_bind, toOption_bind]
      simp only [toOption_map, others, alikeFirst item item' first here]

theorem toOption_termsOfJson_arr (ts : List (Ty Scalar)) (items : List Json) :
    (termsOfJson ts (.arr items)).toOption =
      if items.length = ts.length then (ofItems ts items).toOption else none := by
  rw [termsOfJson, decodeOnce_of_bare (bare_arr items), Except.bind]
  cases listed : listOf ts.length (.arr items) with
  | ok found =>
      obtain ⟨same, few⟩ := listOf_eq_ok_iff.mp listed
      cases same
      rw [if_pos few]
      rfl
  | error fault =>
      have unequal : items.length ≠ ts.length := by
        intro few
        rw [listOf_eq_ok_iff.mpr ⟨rfl, few⟩] at listed
        cases listed
      rw [if_neg unequal]
      rfl

theorem toOption_termsOfJson (h : RequotedItems Requoted ts items items')
    (plain : Plain maxNesting (.arr items))
    (alike : ∀ t ∈ ts, ∀ item item', Requoted t item item' → Plain maxNesting item →
      (t.ofJson item').toOption = (t.ofJson item).toOption) :
    (termsOfJson ts (.arr items')).toOption = (termsOfJson ts (.arr items)).toOption := by
  rw [toOption_termsOfJson_arr, toOption_termsOfJson_arr, h.length_eq,
    toOption_ofItems h plain.items alike]

theorem Requoted.toOption_ofJson {t : Ty Scalar} (h : Requoted t json json')
    (plain : Plain maxNesting json) : (t.ofJson json').toOption = (t.ofJson json).toOption := by
  induction t generalizing json json' with
  | scalar s =>
      cases h
      rfl
  | tuple ts ih =>
      cases h with
      | same => rfl
      | arr inside =>
          have alike := toOption_termsOfJson inside plain fun t ht _ _ => ih t ht
          rw [ofJson_eq_bind_termsOfJson, ofJson_eq_bind_termsOfJson, toOption_bind, toOption_bind,
            alike]

/-- A string with the text of JSON that is no string is read as that JSON, faults included, and is
not decoded again where the text is a string's. Items given by their text make the same terms and
the same value, or none. A value is read from its JSON text as from its JSON. -/
theorem ofJson_text (ts : List (Ty Scalar)) :
    (∀ json, Plain maxNesting json → Bare json →
      termsOfJson ts (.str json.compact) = termsOfJson ts json ∧
        (Ty.tuple ts).ofJson (.str json.compact) = (Ty.tuple ts).ofJson json) ∧
    (∀ text inner, parse text = .ok (.str inner) →
      termsOfJson ts (.str text) = .error (.notAList (.str inner)) ∧
        (Ty.tuple ts).ofJson (.str text) = .error (.notAList (.str inner))) ∧
    (∀ items json', Plain maxNesting (.arr items) → Requoted (.tuple ts) (.arr items) json' →
      (termsOfJson ts json').toOption = (termsOfJson ts (.arr items)).toOption ∧
        ((Ty.tuple ts).ofJson json').toOption = ((Ty.tuple ts).ofJson (.arr items)).toOption) ∧
    ∀ blob json, (Ty.tuple ts).toJson blob = .ok json → json.nesting ≤ maxNesting →
      ∃ text, (Ty.tuple ts).toJsonText blob = .ok text ∧
        (Ty.tuple ts).ofJson (.str text) = (Ty.tuple ts).ofJson json := by
  refine ⟨?_, ?_, ?_, ?_⟩
  · intro json plain bare
    exact ⟨termsOfJson_compact plain bare, ofJson_compact plain bare⟩
  · intro text inner parsed
    rw [ofJson_eq_bind_termsOfJson, termsOfJson_of_parse_str parsed]
    exact ⟨rfl, rfl⟩
  · intro items json' plain requoted
    refine ⟨?_, requoted.toOption_ofJson plain⟩
    cases requoted with
    | same => rfl
    | arr inside => exact toOption_termsOfJson inside plain fun _ _ _ _ => Requoted.toOption_ofJson
  · intro blob json shown shallow
    have plain := (plain_of_toJson (Nat.le_refl _) shown).of_nesting_le shallow
    obtain ⟨items, rfl⟩ : ∃ items, json = .arr items := by
      rw [toJson] at shown
      split at shown
      · cases shown
      · obtain ⟨items, -, rfl⟩ := map_eq_ok_iff.mp shown
        exact ⟨items, rfl⟩
    refine ⟨(Json.arr items).compact, ?_, ofJson_compact plain (bare_arr items)⟩
    rw [toJsonText, shown]
    rfl

/-- A tuple in a tuple is given by its text, as an item of the outer one that is itself given by its
text. The JSON of the first part is an object, which is no tuple. -/
theorem ofJson_text_nested :
    ((Ty.tuple [.tuple [.tuple [.scalar Scalar.int32], .scalar .utf8]]).ofJson
        (.str (Json.obj [("a", .arr [.bool true]), ("b", .null)]).compact) =
      (Ty.tuple [.tuple [.tuple [.scalar Scalar.int32], .scalar .utf8]]).ofJson
        (.obj [("a", .arr [.bool true]), ("b", .null)])) ∧
    (Ty.tuple [.tuple [.tuple [.scalar Scalar.int32], .scalar .utf8]]).ofJson (.str "\"[[]]\"") =
      .error (.notAList (.str "[[]]")) ∧
    ((Ty.tuple [.tuple [.tuple [.scalar Scalar.int32], .scalar .utf8]]).ofJson
        (.arr [.str (Json.arr [.str (Json.arr [.int 7]).compact, .str "\""]).compact])).toOption =
      ((Ty.tuple [.tuple [.tuple [.scalar Scalar.int32], .scalar .utf8]]).ofJson
        (.arr [.arr [.arr [.int 7], .str "\""]])).toOption ∧
    ∃ text,
      (Ty.tuple [.tuple [.tuple [.scalar Scalar.int32], .scalar .utf8]]).toJsonText
        [0, 0, 0, 9, 255, 255, 255, 255, 0, 0, 0, 1, 34] = .ok text ∧
      (Ty.tuple [.tuple [.tuple [.scalar Scalar.int32], .scalar .utf8]]).ofJson (.str text) =
        (Ty.tuple [.tuple [.tuple [.scalar Scalar.int32], .scalar .utf8]]).ofJson
          (.arr [.arr [.null, .str "\""]]) := by
  obtain ⟨quoted, once, requoted, shown⟩ :=
    ofJson_text [.tuple [.tuple [.scalar .int32], .scalar .utf8]]
  refine ⟨(quoted _ ?_ ?_).2, (once _ _ ?_).2, (requoted _ _ ?_ ?_).2, shown _ _ ?_ ?_⟩
  · refine .obj (by decide) (List.forall_mem_cons.mpr ⟨?_, List.forall_mem_singleton.mpr .null⟩)
    exact .arr (List.forall_mem_singleton.mpr .bool)
  · exact fun _ => Json.noConfusion
  · decide +kernel
  · refine .arr (List.forall_mem_singleton.mpr (.arr (List.forall_mem_cons.mpr ⟨?_, ?_⟩)))
    · exact .arr (List.forall_mem_singleton.mpr (.int (by decide) (by decide)))
    · exact List.forall_mem_singleton.mpr .str
  · exact .arr (.quoted Json.noConfusion (bare_arr _)
      (.arr (.quoted Json.noConfusion (bare_arr _) .same .same)) .same)
  · decide +kernel
  · decide

end Ty

end TupleBlob
