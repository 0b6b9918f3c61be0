import TupleBlob.Ty.Literal

/-! # Fields written and split off again

A delimiter is a colon after an even run of backslashes, so fields can be told apart when every
colon in them comes after an odd run and every field but the last ends in an even one. Main
statements: such fields, and no others, are split off as they were joined; texts that are not
ambiguous are escaped to such fields; and unescaping undoes escaping.
-/

namespace TupleBlob.Fields

/-! ## Splitting -/

/-- Whether the text ends in an odd run of backslashes, where it comes right after a run that is
`odd` or not. -/
def endsOdd (odd : Bool) : List Char → Bool
  | [] => odd
  | c :: rest => endsOdd (c = '\\' && !odd) rest

/-- Every colon in the text comes right after an odd run of backslashes. -/
def Undelimited (odd : Bool) : List Char → Prop
  | [] => True
  | c :: rest => (c = ':' → odd) ∧ Undelimited (c = '\\' && !odd) rest

/-- Fields that delimiters between them keep apart. -/
inductive Separable : List (List Char) → Prop
  | last {field} (whole : Undelimited false field) : Separable [field]
  | cons {field fields} (whole : Undelimited false field) (closed : endsOdd false field = false)
      (others : Separable fields) : Separable (field :: fields)

theorem Separable.of_cons {field : List Char} {fields : List (List Char)}
    (whole : Undelimited false field) (closed : fields ≠ [] → endsOdd false field = false)
    (others : fields ≠ [] → Separable fields) : Separable (field :: fields) := by
  cases fields with
  | nil => exact .last whole
  | cons next rest =>
      have more : next :: rest ≠ [] := List.cons_ne_nil next rest
      exact .cons whole (closed more) (others more)

/-- A whole field passes its run of backslashes on to what follows it: only a backslash changes the
run, and a colon inside has an odd run before it. -/
theorem splitFrom_append {odd : Bool} {field : List Char} (whole : Undelimited odd field)
    (rest : List Char) :
    splitFrom odd (field ++ rest) =
      (field ++ (splitFrom (endsOdd odd field) rest).1,
        (splitFrom (endsOdd odd field) rest).2) := by
  induction field generalizing odd with
  | nil => rfl
  | cons c field ih =>
      obtain ⟨guarded, whole⟩ := whole
      have others := ih whole
      by_cases backslash : c = '\\'
      · simp only [backslash, decide_true, Bool.true_and] at others
        simp only [List.cons_append, splitFrom, backslash, if_true, others, endsOdd, decide_true,
          Bool.true_and]
      · simp only [backslash, decide_false, Bool.false_and] at others
        by_cases colon : c = ':'
        · simp [splitFrom, endsOdd, others, colon, guarded colon]
        · simp [splitFrom, endsOdd, others, backslash, colon]

theorem join_cons {field : List Char} {fields : List (List Char)} (h : Separable fields) :
    join (field :: fields) = field ++ ':' :: join fields := by
  cases h <;> rfl

theorem split_join {fields : List (List Char)} (h : Separable fields) :
    split (join fields) = fields := by
  induction h with
  | @last field whole =>
      have all := splitFrom_append whole []
      rw [List.append_nil] at all
      simp only [join, split, all, splitFrom, List.append_nil]
  | @cons field fields whole closed others ih =>
      have delimiter : splitFrom false (':' :: join fields) = ([], split (join fields)) := by
        simp [splitFrom, split]
      rw [join_cons others, split, splitFrom_append whole, closed, delimiter, ih, List.append_nil]

/-- Splitting leaves no delimiter in a field, and none behind a backslash that guards it. -/
theorem separable_splitFrom (odd : Bool) (text : List Char) :
    Undelimited odd (splitFrom odd text).1 ∧
      ((splitFrom odd text).2 ≠ [] → endsOdd odd (splitFrom odd text).1 = false ∧
        Separable (splitFrom odd text).2) := by
  induction text generalizing odd with
  | nil => exact ⟨trivial, fun more => absurd rfl more⟩
  | cons c text ih =>
      by_cases backslash : c = '\\'
      · obtain ⟨whole, others⟩ := ih (!odd)
        simp only [splitFrom, backslash, if_true]
        refine ⟨⟨by simp, by simpa using whole⟩, fun more => ?_⟩
        simpa only [endsOdd, decide_true, Bool.true_and] using others more
      · obtain ⟨whole, others⟩ := ih false
        by_cases delimiter : c = ':' ∧ odd = false
        · obtain ⟨rfl, rfl⟩ := delimiter
          simp only [splitFrom, backslash, if_false]
          refine ⟨trivial, fun _ => ⟨rfl, ?_⟩⟩
          exact .of_cons whole (fun more => (others more).1) fun more => (others more).2
        · have guarded : c = ':' → odd = true := by
            simpa using delimiter
          have plain : (decide (c = ':') && !odd) = false := by
            simpa using delimiter
          simp only [splitFrom, backslash, if_false, plain, Bool.false_eq_true]
          refine ⟨⟨guarded, by simpa [backslash] using whole⟩, fun more => ?_⟩
          simpa only [endsOdd, backslash, decide_false, Bool.false_and] using others more

/-- Fields are split off as they were joined exactly where delimiters keep them apart. -/
theorem split_join_iff {fields : List (List Char)} :
    split (join fields) = fields ↔ Separable fields := by
  constructor
  · intro same
    obtain ⟨whole, others⟩ := separable_splitFrom false (join fields)
    rw [← same]
    exact .of_cons whole (fun more => (others more).1) fun more => (others more).2
  · exact split_join

/-! ## Escaping -/

theorem guardMark_cons (mark c : Char) (text : List Char) :
    guardMark mark (c :: text) =
      (if c = mark then ['\\', mark] else [c]) ++ guardMark mark text := by
  simp only [guardMark, List.flatMap_cons]

theorem escape_cons (c : Char) (text : List Char) :
    escape (c :: text) = (if c = ':' ∨ c = '@' then ['\\', c] else [c]) ++ escape text := by
  simp only [escape, guardMark_cons]
  by_cases colon : c = ':'
  · simp [colon, guardMark_cons]
  · by_cases atSign : c = '@'
    · simp [atSign, guardMark_cons]
    · simp [colon, atSign, guardMark_cons]

/-- What holds before every colon of a text, by the first character of the text. -/
theorem forall_before_colon_cons {holds : List Char → Prop} {c : Char} {text : List Char} :
    (∀ front, front ++ [':'] <+: c :: text → holds front) ↔
      (c = ':' → holds []) ∧ ∀ front, front ++ [':'] <+: text → holds (c :: front) := by
  constructor
  · intro all
    refine ⟨fun colon => all [] ?_, fun front before => all (c :: front) ?_⟩
    · simp [colon]
    · simpa using before
  · rintro ⟨first, others⟩ front before
    cases front with
    | nil => exact first (by simpa [eq_comm] using before)
    | cons d front =>
        obtain ⟨rfl, inside⟩ := List.cons_prefix_cons.mp before
        exact others front inside

/-- An escaped text is one field exactly where each of its colons comes after an even run of
backslashes, to which escaping adds one. -/
theorem undelimited_escape_iff {text : List Char} {odd : Bool} :
    Undelimited odd (escape text) ↔
      ∀ front, front ++ [':'] <+: text → endsOdd odd front = false := by
  induction text generalizing odd with
  | nil => simp [escape, guardMark, Undelimited]
  | cons c text ih =>
      simp only [forall_before_colon_cons, endsOdd, ← ih, escape_cons]
      by_cases mark : c = ':' ∨ c = '@'
      · rcases mark with rfl | rfl
        · simp [Undelimited]
        · simp [Undelimited]
      · simp only [if_neg mark, List.singleton_append, Undelimited]
        rw [not_or] at mark
        simp [mark.1]

theorem endsOdd_escape_eq (odd : Bool) (text : List Char) :
    endsOdd odd (escape text) = endsOdd odd text := by
  induction text generalizing odd with
  | nil => rfl
  | cons c text ih =>
      rw [escape_cons]
      by_cases mark : c = ':' ∨ c = '@'
      · rcases mark with rfl | rfl
        · simp [endsOdd, ih]
        · simp [endsOdd, ih]
      · simp only [if_neg mark, List.singleton_append, endsOdd, ih]

theorem endsOdd_eq_false {odd : Bool} {text : List Char} (opened : text.getLast? ≠ some '\\')
    (even : text = [] → odd = false) : endsOdd odd text = false := by
  induction text generalizing odd with
  | nil => exact even rfl
  | cons c text ih =>
      rw [List.getLast?_cons] at opened
      cases text with
      | nil => simpa [endsOdd] using fun backslash => absurd backslash (by simpa using opened)
      | cons next text =>
          apply ih
          · simpa only [List.getLast?_cons, Option.getD_some] using opened
          · simp

theorem hasGuardedColon_eq_false_iff {text : List Char} :
    hasGuardedColon text = false ↔
      ∀ front, front ++ [':'] <+: text → front.getLast? ≠ some '\\' := by
  induction text with
  | nil => simp [hasGuardedColon]
  | cons c text ih =>
      simp only [forall_before_colon_cons, hasGuardedColon, Bool.or_eq_false_iff, ih]
      have head (front : List Char) :
          (c :: front).getLast? = if front = [] then some c else front.getLast? := by
        cases front <;> simp [List.getLast?_cons]
      have first : [] ++ [':'] <+: text ↔ text.head? = some ':' := by
        cases text <;> simp [eq_comm]
      constructor
      · rintro ⟨alone, others⟩
        refine ⟨by simp, fun front before => ?_⟩
        rw [head]
        split
        · rename_i empty
          subst empty
          rw [first] at before
          simpa [before] using alone
        · exact others front before
      · rintro ⟨-, all⟩
        refine ⟨?_, fun front before => ?_⟩
        · by_cases next : text.head? = some ':'
          · simpa [next] using all [] (first.mpr next)
          · simp [next]
        · have behind := all front before
          rw [head] at behind
          split at behind
          · rename_i empty
            simp [empty]
          · exact behind

theorem undelimited_escape {text : List Char} {odd : Bool} (clear : hasGuardedColon text = false)
    (start : text.head? = some ':' → odd = false) : Undelimited odd (escape text) := by
  rw [undelimited_escape_iff]
  intro front before
  apply endsOdd_eq_false (hasGuardedColon_eq_false_iff.mp clear front before)
  rintro rfl
  obtain ⟨rest, rfl⟩ := before
  exact start rfl

theorem endsOdd_escape {text : List Char} (opened : text.getLast? ≠ some '\\') :
    endsOdd false (escape text) = false := by
  rw [endsOdd_escape_eq]
  apply endsOdd_eq_false opened
  intro _
  rfl

/-- An at sign alone is no escaped text, so it may stand for a null. -/
theorem escape_ne_atSign (text : List Char) : escape text ≠ ['@'] := by
  cases text with
  | nil => simp [escape, guardMark]
  | cons c text =>
      rw [escape_cons]
      split
      · simp
      · rename_i mark
        simp only [List.singleton_append, ne_eq, List.cons.injEq, not_and]
        intro atSign
        exact absurd (.inr atSign) mark

/-! ## Unescaping -/

theorem head?_guardMark {mark : Char} (plain : mark ≠ '\\') (text : List Char) :
    (guardMark mark text).head? ≠ some mark := by
  cases text with
  | nil => simp [guardMark]
  | cons c text =>
      rw [guardMark_cons]
      split
      · simpa using plain.symm
      · simpa

theorem bareMark_guardMark {mark : Char} (plain : mark ≠ '\\') (text : List Char) :
    bareMark mark (guardMark mark text) = text := by
  induction text with
  | nil => rfl
  | cons c text ih =>
      rw [guardMark_cons]
      split
      · rename_i same
        simp [bareMark, plain, ih, same]
      · have head := head?_guardMark plain text
        simp [bareMark, head, ih]

theorem guardMark_comm {a b : Char} (plainA : a ≠ '\\') (plainB : b ≠ '\\') (differ : a ≠ b)
    (text : List Char) : guardMark a (guardMark b text) = guardMark b (guardMark a text) := by
  induction text with
  | nil => rfl
  | cons c text ih =>
      simp only [guardMark_cons]
      by_cases hb : c = b
      · simp [hb, guardMark_cons, ih, plainA.symm, differ.symm]
      · by_cases ha : c = a
        · simp [ha, guardMark_cons, ih, plainB.symm, differ]
        · simp [ha, hb, guardMark_cons, ih]

theorem unescape_escape (text : List Char) : unescape (escape text) = text := by
  have swapped : guardMark '@' (guardMark ':' text) = guardMark ':' (guardMark '@' text) :=
    guardMark_comm (by decide) (by decide) (by decide) text
  rw [unescape, escape, swapped, bareMark_guardMark (by decide), bareMark_guardMark (by decide)]

end TupleBlob.Fields
