import TupleBlob.Proofs.Json.RoundTrip
import TupleBlob.Proofs.Json.Text

/-! # JSON strings with the text of a value

A JSON string is taken for the JSON that it holds the text of, once. Main statements: a value is
shown as JSON that is nested as deep as its type and is read again from its text, so a value is read
from such a string as it is read from the JSON itself, and from no string inside a string.
-/

namespace TupleBlob.Ty

variable {t : Ty Scalar} {ts : List (Ty Scalar)}

mutual

/-- How deep tuples are nested. -/
def depth : Ty Scalar → Nat
  | .scalar _ => 0
  | .tuple ts => depthList ts + 1

def depthList : List (Ty Scalar) → Nat
  | [] => 0
  | t :: ts => max t.depth (depthList ts)

end

theorem depth_le_depthList (member : t ∈ ts) : t.depth ≤ depthList ts := by
  induction ts with
  | nil => cases member
  | cons first ts ih =>
      rw [depthList]
      rcases List.mem_cons.mp member with rfl | later
      · exact Nat.le_max_left _ _
      · exact Nat.le_trans (ih later) (Nat.le_max_right _ _)

theorem of_mem_itemsOf {segments : List Segment} {items : List Json} {item : Json}
    (shown : itemsOf ts segments = .ok items) (member : item ∈ items) :
    item = .null ∨ ∃ t ∈ ts, ∃ payload, t.toJson payload = .ok item := by
  induction ts generalizing segments items with
  | nil =>
      cases shown
      cases member
  | cons t ts ih =>
      rw [itemsOf_cons] at shown
      obtain ⟨first, found, shown⟩ := bind_eq_ok_iff.mp shown
      obtain ⟨others, rest, rfl⟩ := map_eq_ok_iff.mp shown
      rcases List.mem_cons.mp member with rfl | later
      · cases place : segments.head?.join with
        | none =>
            rw [place] at found
            cases found
            exact .inl rfl
        | some payload =>
            rw [place] at found
            exact .inr ⟨t, List.mem_cons_self, payload, found⟩
      · refine (ih rest later).imp id ?_
        rintro ⟨u, hu, found⟩
        exact ⟨u, List.mem_cons_of_mem _ hu, found⟩

theorem plain_of_toJson {nesting : Nat} {bytes : Bytes} {json : Json}
    (shallow : t.depth ≤ nesting) (shown : t.toJson bytes = .ok json) :
    Json.Plain nesting json := by
  induction t generalizing nesting bytes json with
  | scalar s =>
      rw [toJson] at shown
      cases s with
      | int32 =>
          obtain ⟨word, -, rfl⟩ := map_eq_ok_iff.mp shown
          have low : -2147483648 ≤ word.toInt := word.le_toInt
          have high : word.toInt ≤ 2147483647 := word.toInt_le
          refine .int ?_ ?_
          · simp only [Json.maxNegative]
            omega
          · simp only [Json.maxSignificand]
            omega
      | utf8 | ascii =>
          obtain ⟨text, -, rfl⟩ := map_eq_ok_iff.mp shown
          exact .str
      | bytes | probe =>
          cases shown
          exact .str
  | tuple ts ih =>
      rw [toJson] at shown
      split at shown
      · cases shown
      · obtain ⟨items, inside, rfl⟩ := map_eq_ok_iff.mp shown
        cases nesting with
        | zero => cases shallow
        | succ nesting =>
            refine .arr fun item member => ?_
            rcases of_mem_itemsOf inside member with rfl | ⟨t, ht, payload, found⟩
            · exact .null
            · apply ih t ht _ found
              exact Nat.le_trans (depth_le_depthList ht) (Nat.le_of_succ_le_succ shallow)

/-- The JSON itself, or a JSON string with its text, or one with the text of that, and so on. -/
inductive Quotes (json : Json) : Json → Prop
  | itself : Quotes json json
  | text {quoted} (inside : Quotes json quoted) : Quotes json (.str quoted.compact)

theorem Quotes.plain {json quoted : Json} (h : Quotes json quoted)
    (plain : Json.Plain Json.maxNesting json) : Json.Plain Json.maxNesting quoted := by
  cases h with
  | itself => exact plain
  | text => exact .str

/-- A JSON string is read once, so what can be read is no string inside a string. -/
theorem ofJson_of_quotes {json quoted : Json} {after : Bytes} (h : Quotes json quoted)
    (plain : Json.Plain Json.maxNesting json) (read : (Ty.tuple ts).ofJson quoted = .ok after) :
    (Ty.tuple ts).ofJson json = .ok after := by
  induction h with
  | itself => exact read
  | @text quoted inside ih =>
      apply ih
      obtain ⟨items, segments, decoded, same, readItems, written⟩ := exists_items_of_ofJson read
      simp only [decodeOnce, Json.parse_compact (inside.plain plain), Except.mapError,
        Except.ok.injEq] at decoded
      subst decoded
      rw [ofJson_arr same, readItems]
      exact written.encodeSegments_eq

end TupleBlob.Ty
