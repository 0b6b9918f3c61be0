import TupleBlob.Reader

/-! # Sessions of readers

Several readers of one blob, of which one is current. A call works on the current reader, appends a
copy of it, or makes another one current. A call that fails is answered by its fault, and the
session goes on from wherever the call left the reader.
-/

namespace TupleBlob

inductive Call
  | hasRemaining
  | readLength
  | readBytes (n : Nat)
  | readSegment
  | next
  | skipNulls
  /-- Append a copy of the current reader. -/
  | copy
  /-- Make the reader with this index current. -/
  | use (index : Nat)
deriving DecidableEq, Repr

inductive Answer
  | flag (value : Bool)
  | word (found : Found LengthWord)
  | bytes (value : Bytes)
  | segment (found : Found Segment)
  | next (segment : Option Segment)
  | index (value : Nat)
  | fault (cause : Fault)
  /-- There is no reader with that index. -/
  | noReader (index : Nat)
deriving DecidableEq, Repr

/-- The readers and the index of the current one. -/
structure Session where
  readers : List Reader
  current : Nat
  current_lt : current < readers.length

namespace Session

def start (blob : Bytes) : Session := ⟨[Reader.start blob], 0, Nat.one_pos⟩

def reader (s : Session) : Reader :=
  s.readers.get ⟨s.current, s.current_lt⟩

/-- Puts a reader in the place of the current one. -/
def setReader (s : Session) (r : Reader) : Session :=
  ⟨s.readers.set s.current r, s.current, by rw [List.length_set]; exact s.current_lt⟩

/-- Answers with what a read gave, and goes on with the reader it left. -/
def answer {α : Type} (s : Session) (wrap : α → Answer) :
    Except Fault α × Reader → Answer × Session
  | (.ok value, r) => (wrap value, s.setReader r)
  | (.error cause, r) => (.fault cause, s.setReader r)

def call (s : Session) : Call → Answer × Session
  | .hasRemaining => (.flag s.reader.hasRemaining, s)
  | .readLength => s.answer .word s.reader.readLength
  | .readBytes n => s.answer .bytes (s.reader.readBytes n)
  | .readSegment => s.answer .segment s.reader.readSegment
  | .next => s.answer .next s.reader.next
  | .skipNulls => s.answer .flag s.reader.skipNulls
  | .copy =>
    (.index s.readers.length, ⟨s.readers ++ [s.reader], s.current,
      Nat.lt_of_lt_of_le s.current_lt (by simp)⟩)
  | .use index =>
    if h : index < s.readers.length then (.index index, ⟨s.readers, index, h⟩)
    else (.noReader index, s)

/-- Makes calls in turn. Gives each answer, and how many bytes the then current reader had left. -/
def run (s : Session) : List Call → List (Answer × Nat)
  | [] => []
  | c :: calls =>
    let (answer, s) := s.call c
    (answer, s.reader.remaining) :: s.run calls

@[simp] theorem reader_setReader (s : Session) (r : Reader) : (s.setReader r).reader = r := by
  simp [reader, setReader]

end Session

end TupleBlob
