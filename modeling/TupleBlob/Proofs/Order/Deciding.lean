import TupleBlob.Proofs.Order.Reference
import TupleBlob.Scalar

/-! # The component that decides

Two blobs are walked component by component, and the first pair of segments that are not equal
decides. A null is told by its length word, so where one side is a null the payload of the other
side need not be there. Main statement: once a component has decided, whatever follows on either
side, be it malformed or cut short, changes nothing; and a comparison that succeeds without a
deciding component has come to the last component or to the end of a blob.
-/

namespace TupleBlob.Ty

open LengthWord

variable {S : Type} [ScalarType S]

/-- There is a segment for every type on both sides, and the two at one place are equal. -/
inductive Tied : List (Ty S) → (lefts rights : List Segment) → Prop
  | nil : Tied [] [] []
  | cons {t ts left right lefts rights} (first : t.orderSegments left right = .ok .eq)
      (others : Tied ts lefts rights) : Tied (t :: ts) (left :: lefts) (right :: rights)

/-- The bytes of one component on both sides, up to where they decide: the length words where one
side alone is a null, and else the payloads. -/
inductive Decides (t : Ty S) : (left right : Bytes) → Ordering → Prop
  | leftNull {word word' : LengthWord} {size : Nat} (null : word.ReadAsNull)
      (present : word'.payloadSize? = some size) : Decides t word.toBytes word'.toBytes .lt
  | rightNull {word word' : LengthWord} {size : Nat} (present : word.payloadSize? = some size)
      (null : word'.ReadAsNull) : Decides t word.toBytes word'.toBytes .gt
  | payloads {payload payload' left right o}
      (spellsLeft : SpellsSegment ReadAsNull (some payload) left)
      (spellsRight : SpellsSegment ReadAsNull (some payload') right)
      (decided : t.order payload payload' = .ok o) (unequal : o ≠ .eq) : Decides t left right o

/-- The bytes of both blobs up to where the component with the given index decides. The components
before it are equal. -/
inductive DecidedAt : List (Ty S) → (index : Nat) → (left right : Bytes) → Ordering → Prop
  | intro {before t after lefts rights frontLeft frontRight left right o}
      (tied : Tied before lefts rights) (spellsLeft : Spells ReadAsNull lefts frontLeft)
      (spellsRight : Spells ReadAsNull rights frontRight) (decides : Decides t left right o) :
      DecidedAt (before ++ t :: after) before.length (frontLeft ++ left) (frontRight ++ right) o

/-- The components are equal until there are no more of them or a blob ends. -/
inductive RunsOut : List (Ty S) → (left right : Bytes) → Prop
  | intro {before after lefts rights frontLeft frontRight left right}
      (tied : Tied before lefts rights) (spellsLeft : Spells ReadAsNull lefts frontLeft)
      (spellsRight : Spells ReadAsNull rights frontRight)
      (ended : after = [] ∨ left = [] ∨ right = []) :
      RunsOut (before ++ after) (frontLeft ++ left) (frontRight ++ right)

/-- What comparing one component does. -/
inductive ComparesFirst (t : Ty S) (ts : List (Ty S)) :
    (left right : Reader) → Except Fault Ordering → Prop
  | ended {left right} (ended : left.rest = [] ∨ right.rest = []) :
      ComparesFirst t ts left right (orderRest left right)
  | tie {i j left right leftFront rightFront x y}
      (spellsLeft : SpellsSegment ReadAsNull left leftFront)
      (spellsRight : SpellsSegment ReadAsNull right rightFront)
      (tie : t.orderSegments left right = .ok .eq) :
      ComparesFirst t ts ⟨i, leftFront ++ x⟩ ⟨j, rightFront ++ y⟩
        (orderFrom ts ⟨i + leftFront.length, x⟩ ⟨j + rightFront.length, y⟩)
  | decided {i j left right o x y} (decides : Decides t left right o) :
      ComparesFirst t ts ⟨i, left ++ x⟩ ⟨j, right ++ y⟩ (.ok o)
  | fault {left right} (fault : Fault) : ComparesFirst t ts left right (.error fault)

variable {t : Ty S} {ts : List (Ty S)} {left right : Bytes} {o : Ordering}

/-! ## What follows -/

theorem Decides.ne_nil (h : Decides t left right o) : left ≠ [] ∧ right ≠ [] := by
  cases h with
  | leftNull | rightNull => exact ⟨List.cons_ne_nil _ _, List.cons_ne_nil _ _⟩
  | payloads spellsLeft spellsRight => exact ⟨spellsLeft.ne_nil, spellsRight.ne_nil⟩

theorem Decides.orderFrom_append (h : Decides t left right o) (ts : List (Ty S)) (x y : Bytes)
    (i j : Nat) : orderFrom (t :: ts) ⟨i, left ++ x⟩ ⟨j, right ++ y⟩ = .ok o := by
  cases h with
  | leftNull null present =>
      simp only [orderFrom, Reader.readLength_toBytes, payloadSize?_eq_none_iff.mpr null, present]
  | rightNull present null =>
      simp only [orderFrom, Reader.readLength_toBytes, payloadSize?_eq_none_iff.mpr null, present]
  | payloads spellsLeft spellsRight decided unequal =>
      rw [orderFrom_cons spellsLeft spellsRight, orderSegments, decided]
      cases o with
      | eq => exact absurd rfl unequal
      | lt | gt => rfl

/-- Equal components are passed over. -/
theorem Tied.orderFrom_append {lefts rights : List Segment} (tied : Tied ts lefts rights)
    (spellsLeft : Spells ReadAsNull lefts left) (spellsRight : Spells ReadAsNull rights right)
    (later : List (Ty S)) (x y : Bytes) (i j : Nat) :
    orderFrom (ts ++ later) ⟨i, left ++ x⟩ ⟨j, right ++ y⟩ =
      orderFrom later ⟨i + left.length, x⟩ ⟨j + right.length, y⟩ := by
  induction tied generalizing left right i j with
  | nil =>
      cases spellsLeft
      cases spellsRight
      rfl
  | cons first _ ih =>
      cases spellsLeft with
      | cons firstLeft othersLeft =>
          cases spellsRight with
          | cons firstRight othersRight =>
              simp only [List.cons_append, List.append_assoc, orderFrom_cons firstLeft firstRight,
                first, ih othersLeft othersRight, List.length_append, Nat.add_assoc]

theorem DecidedAt.order_append {index : Nat} (h : DecidedAt ts index left right o)
    (x y : Bytes) : (Ty.tuple ts).order (left ++ x) (right ++ y) = .ok o := by
  cases h with
  | intro tied spellsLeft spellsRight decides =>
      obtain ⟨someLeft, someRight⟩ := decides.ne_nil
      rw [order_of_ne_nil _ (by simp [someLeft]) (by simp [someRight])]
      simp only [Reader.start, List.append_assoc, tied.orderFrom_append spellsLeft spellsRight,
        decides.orderFrom_append]

/-! ## What a comparison does -/

/-- A payload that is announced is cut short, or stands there and makes a segment with its word. -/
theorem readBytes_of_payloadSize? {word : LengthWord} {size : Nat}
    (present : word.payloadSize? = some size) (offset : Nat) (rest : Bytes) :
    (∃ fault r, Reader.readBytes size ⟨offset, rest⟩ = (.error fault, r)) ∨
      ∃ payload later, rest = payload ++ later ∧
        SpellsSegment ReadAsNull (some payload) (word.toBytes ++ payload) ∧
        Reader.readBytes size ⟨offset, rest⟩ = (.ok payload, ⟨offset + payload.length, later⟩) := by
  simp only [Reader.readBytes]
  cases cut : rest.cut? size with
  | none => exact .inl ⟨_, _, rfl⟩
  | some found =>
      obtain ⟨payload, later⟩ := found
      obtain ⟨rfl, rfl⟩ := Bytes.cut?_eq_some_iff.mp cut
      exact .inr ⟨payload, later, rfl, .payload (ofSize?_of_payloadSize? present), rfl⟩

/-- Two payloads are both read before they are compared, the left one first. -/
theorem comparesFirst_of_payloadSize? (t : Ty S) {word word' : LengthWord} {size size' : Nat}
    (present : word.payloadSize? = some size) (present' : word'.payloadSize? = some size')
    (ts : List (Ty S)) (restLeft restRight : Bytes) (i j : Nat) :
    ComparesFirst t ts ⟨i, word.toBytes ++ restLeft⟩ ⟨j, word'.toBytes ++ restRight⟩
      (orderFrom (t :: ts) ⟨i, word.toBytes ++ restLeft⟩ ⟨j, word'.toBytes ++ restRight⟩) := by
  simp only [orderFrom, Reader.readLength_toBytes, present, present']
  rcases readBytes_of_payloadSize? present (i + width) restLeft with
    ⟨fault, r, cut⟩ | ⟨payload, x, rfl, spellsLeft, read⟩
  · simp only [cut]
    exact .fault fault
  rcases readBytes_of_payloadSize? present' (j + width) restRight with
    ⟨fault, r, cut⟩ | ⟨payload', y, rfl, spellsRight, read'⟩
  · simp only [read, cut]
    exact .fault fault
  simp only [read, read', ← List.append_assoc]
  cases decided : t.order payload payload' with
  | error fault => exact .fault fault
  | ok o =>
      cases o with
      | lt | gt => exact .decided (.payloads spellsLeft spellsRight decided (by simp))
      | eq =>
          have step := @ComparesFirst.tie _ _ t ts i j _ _ _ _ x y spellsLeft spellsRight decided
          simpa only [List.length_append, length_toBytes, Nat.add_assoc] using step

theorem comparesFirst (t : Ty S) (ts : List (Ty S)) (left right : Reader) :
    ComparesFirst t ts left right (orderFrom (t :: ts) left right) := by
  have readLeft := left.readsLength
  have readRight := right.readsLength
  rw [orderFrom]
  generalize left.readLength = foundLeft at readLeft
  generalize right.readLength = foundRight at readRight
  cases readLeft with
  | atEnd => exact .ended (.inl rfl)
  | short =>
      cases readRight with
      | atEnd => exact .ended (.inr rfl)
      | short | item => exact .fault _
  | @item i word restLeft =>
      cases readRight with
      | atEnd => exact .ended (.inr rfl)
      | short => exact .fault _
      | @item j word' restRight =>
          dsimp only
          cases size : word.payloadSize? with
          | none =>
              have null := payloadSize?_eq_none_iff.mp size
              cases size' : word'.payloadSize? with
              | none => exact .tie (.null null) (.null (payloadSize?_eq_none_iff.mp size')) rfl
              | some => exact .decided (.leftNull null size')
          | some =>
              cases size' : word'.payloadSize? with
              | none => exact .decided (.rightNull size (payloadSize?_eq_none_iff.mp size'))
              | some =>
                  have step := comparesFirst_of_payloadSize? t size size' ts restLeft
                    restRight i j
                  simpa only [orderFrom, Reader.readLength_toBytes, size, size'] using step

theorem DecidedAt.cons {first first' : Segment} {front front' : Bytes} {index : Nat}
    (spellsLeft : SpellsSegment ReadAsNull first front)
    (spellsRight : SpellsSegment ReadAsNull first' front')
    (tie : t.orderSegments first first' = .ok .eq) (h : DecidedAt ts index left right o) :
    DecidedAt (t :: ts) (index + 1) (front ++ left) (front' ++ right) o := by
  cases h with
  | intro tied othersLeft othersRight decides =>
      rw [← List.append_assoc, ← List.append_assoc]
      exact .intro (.cons tie tied) (.cons spellsLeft othersLeft) (.cons spellsRight othersRight)
        decides

theorem RunsOut.cons {first first' : Segment} {front front' : Bytes}
    (spellsLeft : SpellsSegment ReadAsNull first front)
    (spellsRight : SpellsSegment ReadAsNull first' front')
    (tie : t.orderSegments first first' = .ok .eq) (h : RunsOut ts left right) :
    RunsOut (t :: ts) (front ++ left) (front' ++ right) := by
  cases h with
  | intro tied othersLeft othersRight ended =>
      rw [← List.append_assoc, ← List.append_assoc]
      exact .intro (.cons tie tied) (.cons spellsLeft othersLeft) (.cons spellsRight othersRight)
        ended

theorem RunsOut.of_ended (ended : left = [] ∨ right = []) : RunsOut ts left right :=
  .intro .nil .nil .nil (.inr ended)

/-- How a comparison comes to its result. -/
theorem decidedAt_or_runsOut {i j : Nat}
    (compared : orderFrom ts ⟨i, left⟩ ⟨j, right⟩ = .ok o) :
    (∃ index p q, DecidedAt ts index p q o ∧ p <+: left ∧ q <+: right) ∨
      RunsOut ts left right := by
  induction ts generalizing left right i j with
  | nil => exact .inr (.intro .nil .nil .nil (.inl rfl))
  | cons t ts ih =>
      have first := comparesFirst t ts ⟨i, left⟩ ⟨j, right⟩
      rw [compared] at first
      generalize result : Except.ok o = found at first
      cases first with
      | fault => cases result
      | ended ended => exact .inr (.of_ended ended)
      | @decided _ _ p q _ x y decides =>
          cases result
          refine .inl ⟨0, p, q, ?_, List.prefix_append p x, List.prefix_append q y⟩
          exact .intro .nil .nil .nil decides
      | tie spellsLeft spellsRight tie =>
          rcases ih result.symm with ⟨index, p, q, decided, ⟨x, rfl⟩, ⟨y, rfl⟩⟩ | runsOut
          · refine .inl ⟨index + 1, _, _, decided.cons spellsLeft spellsRight tie, ?_, ?_⟩
            · rw [← List.append_assoc]
              exact List.prefix_append _ x
            · rw [← List.append_assoc]
              exact List.prefix_append _ y
          · exact .inr (runsOut.cons spellsLeft spellsRight tie)

/-- Once a component has decided, the bytes behind it have no influence: the payloads behind it,
and behind a null the payload of the other side, may be replaced by any bytes. A comparison that
succeeds is decided by a component, or comes to the end of the components or of a blob. -/
theorem order_of_decidedAt (ts : List (Ty S)) (left right : Bytes) :
    (∀ index p q o, DecidedAt ts index p q o → p <+: left → q <+: right →
      (Ty.tuple ts).order left right = .ok o ∧
      ∀ x y, (Ty.tuple ts).order (p ++ x) (q ++ y) = .ok o) ∧
    ∀ o, (Ty.tuple ts).order left right = .ok o →
      (∃ index p q, DecidedAt ts index p q o ∧ p <+: left ∧ q <+: right) ∨
        RunsOut ts left right := by
  constructor
  · rintro index p q o decided ⟨x, rfl⟩ ⟨y, rfl⟩
    exact ⟨decided.order_append x y, decided.order_append⟩
  · intro o compared
    cases left with
    | nil => exact .inr (.of_ended (.inl rfl))
    | cons =>
        cases right with
        | nil => exact .inr (.of_ended (.inr rfl))
        | cons => exact decidedAt_or_runsOut compared

/-- After an equal inner tuple, a null decides against a payload that is announced and not there.
The second comparison is over with the shorter blob. -/
theorem order_of_decidedAt_truncated :
    ((Ty.tuple [.tuple [.scalar Scalar.int32], .scalar .utf8, .scalar .bytes]).order
        [0, 0, 0, 0, 255, 255, 255, 254, 0, 0] [0, 0, 0, 0, 0, 0, 0, 7, 97] = .ok .lt ∧
      ∀ x y, (Ty.tuple [.tuple [.scalar Scalar.int32], .scalar .utf8, .scalar .bytes]).order
        ([0, 0, 0, 0, 255, 255, 255, 254] ++ x) ([0, 0, 0, 0, 0, 0, 0, 7] ++ y) = .ok .lt) ∧
    ((∃ index p q,
        DecidedAt [.tuple [.scalar Scalar.int32], .scalar .utf8, .scalar .bytes] index p q .eq ∧
        p <+: [0, 0, 0, 0] ∧ q <+: [0, 0, 0, 0, 255, 255, 255, 255]) ∨
      RunsOut [.tuple [.scalar Scalar.int32], .scalar .utf8, .scalar .bytes]
        [0, 0, 0, 0] [0, 0, 0, 0, 255, 255, 255, 255]) := by
  have tied : Tied [.tuple [.scalar Scalar.int32]] [some []] [some []] := .cons rfl .nil
  have spelled : Spells ReadAsNull [some []] [0, 0, 0, 0] :=
    .cons (@SpellsSegment.payload ReadAsNull [] ⟨0⟩ rfl) .nil
  have decides : Decides (.scalar Scalar.utf8) [255, 255, 255, 254] [0, 0, 0, 7] .lt :=
    @Decides.leftNull _ _ _ ⟨-2⟩ ⟨7⟩ 7 rfl rfl
  have decided : DecidedAt [.tuple [.scalar Scalar.int32], .scalar .utf8, .scalar .bytes] 1
      [0, 0, 0, 0, 255, 255, 255, 254] [0, 0, 0, 0, 0, 0, 0, 7] .lt :=
    .intro tied spelled spelled decides
  obtain ⟨run, -⟩ := order_of_decidedAt
    [.tuple [.scalar Scalar.int32], .scalar .utf8, .scalar .bytes]
    [0, 0, 0, 0, 255, 255, 255, 254, 0, 0] [0, 0, 0, 0, 0, 0, 0, 7, 97]
  obtain ⟨-, result⟩ := order_of_decidedAt
    [.tuple [.scalar Scalar.int32], .scalar .utf8, .scalar .bytes]
    [0, 0, 0, 0] [0, 0, 0, 0, 255, 255, 255, 255]
  exact ⟨run 1 _ _ _ decided ⟨[0, 0], rfl⟩ ⟨[97], rfl⟩, result .eq rfl⟩

end TupleBlob.Ty
