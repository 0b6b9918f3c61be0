import TupleBlob.Fault
import TupleBlob.Bytes

/-! # Reading blobs

A blob is a run of segments, each a length word and the payload that it announces. A reader stands
at an offset of a blob. To run out of bytes between two segments is an answer, to run out inside
one is a fault. A read that fails leaves the reader where it stood, except that a segment whose
payload is cut short leaves it behind the length word. Main statements: what was written is read
back, and skipping nulls is reading length words one by one.
-/

namespace TupleBlob

/-- What a read finds: the end of the blob, or an item and the number of bytes it took. -/
inductive Found (α : Type)
  | atEnd
  | item (size : Nat) (value : α)
deriving DecidableEq, Repr

/-- A place in a blob: the number of bytes before it and the bytes from it on. -/
structure Reader where
  offset : Nat
  rest : Bytes
deriving DecidableEq, Repr

namespace Reader

def start (blob : Bytes) : Reader := ⟨0, blob⟩

def remaining (r : Reader) : Nat :=
  r.rest.length

def hasRemaining (r : Reader) : Bool :=
  !r.rest.isEmpty

def readLength (r : Reader) : Except Fault (Found LengthWord) × Reader :=
  match r.rest with
  | [] => (.ok .atEnd, r)
  | a :: b :: c :: d :: rest =>
    (.ok (.item LengthWord.width (.ofBytes a b c d)), ⟨r.offset + LengthWord.width, rest⟩)
  | rest => (.error (.truncatedLength r.offset rest.length), r)

def readBytes (n : Nat) (r : Reader) : Except Fault Bytes × Reader :=
  match r.rest.cut? n with
  | some (bytes, rest) => (.ok bytes, ⟨r.offset + n, rest⟩)
  | none => (.error (.truncatedPayload r.offset n r.remaining), r)

/-- Reads a segment: a length word, and the payload that it announces. -/
def readSegment (r : Reader) : Except Fault (Found Segment) × Reader :=
  match r.readLength with
  | (.error fault, r) => (.error fault, r)
  | (.ok .atEnd, r) => (.ok .atEnd, r)
  | (.ok (.item size word), r) =>
    match word.payloadSize? with
    | none => (.ok (.item size none), r)
    | some n =>
      match r.readBytes n with
      | (.error fault, r) => (.error fault, r)
      | (.ok payload, r) => (.ok (.item (size + payload.length) (some payload)), r)

/-- The next segment, or nothing at the end. -/
def next (r : Reader) : Except Fault (Option Segment) × Reader :=
  match r.readSegment with
  | (.error fault, r) => (.error fault, r)
  | (.ok .atEnd, r) => (.ok none, r)
  | (.ok (.item _ segment), r) => (.ok (some segment), r)

/-- Reads length words from `offset` on up to the first that is not null, without its payload, and
tells whether there was none. -/
def skipNullsFrom (offset : Nat) : Bytes → Except Fault Bool × Reader
  | [] => (.ok true, ⟨offset, []⟩)
  | a :: b :: c :: d :: rest =>
    if (LengthWord.ofBytes a b c d).isNull then skipNullsFrom (offset + LengthWord.width) rest
    else (.ok false, ⟨offset + LengthWord.width, rest⟩)
  | rest => (.error (.truncatedLength offset rest.length), ⟨offset, rest⟩)

/-- Whether only nulls follow. The reader ends behind the last word looked at. -/
def skipNulls (r : Reader) : Except Fault Bool × Reader :=
  skipNullsFrom r.offset r.rest

/-- The next segments, at most `count` of them. -/
def segments : (count : Nat) → Reader → Except Fault (List Segment)
  | 0, _ => .ok []
  | count + 1, r =>
    match r.next with
    | (.error fault, _) => .error fault
    | (.ok none, _) => .ok []
    | (.ok (some segment), r) => (segments count r).map (segment :: ·)

theorem readLength_toBytes (offset : Nat) (word : LengthWord) (rest : Bytes) :
    readLength ⟨offset, word.toBytes ++ rest⟩ =
      (.ok (.item LengthWord.width word), ⟨offset + LengthWord.width, rest⟩) := by
  obtain ⟨a, b, c, d, hbytes, hword⟩ := word.ofBytes_toBytes
  simp only [hbytes, readLength, List.cons_append, List.nil_append, hword]

theorem readBytes_append (offset : Nat) (bytes rest : Bytes) :
    readBytes bytes.length ⟨offset, bytes ++ rest⟩ =
      (.ok bytes, ⟨offset + bytes.length, rest⟩) := by
  simp only [readBytes, Bytes.cut?_length_append]

/-- Skipping nulls is reading length words until one is not null. -/
theorem skipNulls_eq (r : Reader) :
    r.skipNulls =
      match r.readLength with
      | (.error fault, r) => (.error fault, r)
      | (.ok .atEnd, r) => (.ok true, r)
      | (.ok (.item _ word), r) => if word.isNull then r.skipNulls else (.ok false, r) := by
  obtain ⟨offset, rest⟩ := r
  match rest with
  | [] => rfl
  | [_] => rfl
  | [_, _] => rfl
  | [_, _, _] => rfl
  | a :: b :: c :: d :: rest => simp [skipNulls, skipNullsFrom, readLength]

end Reader

/-- The segments of a blob, at most `arity` of them. A blob that ends early has fewer. -/
def split (arity : Nat) (blob : Bytes) : Except Fault (List Segment) :=
  (Reader.start blob).segments arity

end TupleBlob
