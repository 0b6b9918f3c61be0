import TupleBlob.Fault
import TupleBlob.Bytes

/-! # Writing blobs

Components are written to a sink one after the other, each as a length word and its payload; a
component that is absent is a length word alone. A sink either grows freely or has room for some
number of bytes: a write that does not fit stores what does and fails. A payload whose size has no
length word fails before anything of its segment is written.
-/

namespace TupleBlob

/-- The payload of a component. A run of zeros is held as its size, so that a size with no length
word can be refused without the bytes. -/
inductive Payload
  | bytes (bs : Bytes)
  | zeros (count : Nat)
deriving DecidableEq, Repr

namespace Payload

def size : Payload → Nat
  | .bytes bs => bs.length
  | .zeros count => count

/-- The first `n` bytes, or all of them where there are fewer. -/
def take (n : Nat) : Payload → Bytes
  | .bytes bs => bs.take n
  | .zeros count => List.replicate (min n count) 0

def toBytes : Payload → Bytes
  | .bytes bs => bs
  | .zeros count => List.replicate count 0

@[simp] theorem length_toBytes (p : Payload) : p.toBytes.length = p.size := by
  cases p <;> simp [toBytes, size]

theorem take_eq (n : Nat) (p : Payload) : p.take n = p.toBytes.take n := by
  cases p <;> simp [toBytes, take]

end Payload

/-- A place to write to: what it holds, and how many more bytes it has room for if that is
bounded. -/
structure Sink where
  room : Option Nat
  written : Bytes
deriving DecidableEq, Repr

namespace Sink

def unbounded : Sink := ⟨none, []⟩

def bounded (capacity : Nat) : Sink := ⟨some capacity, []⟩

def write (payload : Payload) (sink : Sink) : Except Fault Unit × Sink :=
  match sink.room with
  | none => (.ok (), ⟨none, sink.written ++ payload.toBytes⟩)
  | some room =>
    if payload.size ≤ room then
      (.ok (), ⟨some (room - payload.size), sink.written ++ payload.toBytes⟩)
    else (.error .sinkFull, ⟨some 0, sink.written ++ payload.take room⟩)

def lengthWord (index size : Nat) : Except Fault LengthWord :=
  match LengthWord.ofSize? size with
  | some word => .ok word
  | none => .error (.oversizedComponent index size)

/-- Writes the segment of one component. Gives the number of bytes in it. -/
def writeComponent (index : Nat) (component : Option Payload) (sink : Sink) :
    Except Fault Nat × Sink :=
  match component with
  | none =>
    match sink.write (.bytes LengthWord.null.toBytes) with
    | (.error fault, sink) => (.error fault, sink)
    | (.ok (), sink) => (.ok LengthWord.width, sink)
  | some payload =>
    match lengthWord index payload.size with
    | .error fault => (.error fault, sink)
    | .ok word =>
      match sink.write (.bytes word.toBytes) with
      | (.error fault, sink) => (.error fault, sink)
      | (.ok (), sink) =>
        match sink.write payload with
        | (.error fault, sink) => (.error fault, sink)
        | (.ok (), sink) => (.ok (LengthWord.width + payload.size), sink)

/-- Writes components of which the first has the given index. Gives `count` and the number of
bytes in all their segments. -/
def writeFrom (index count : Nat) : List (Option Payload) → Sink → Except Fault Nat × Sink
  | [], sink => (.ok count, sink)
  | component :: rest, sink =>
    match sink.writeComponent index component with
    | (.error fault, sink) => (.error fault, sink)
    | (.ok size, sink) => writeFrom (index + 1) (count + size) rest sink

/-- Writes components. Gives the number of bytes in all their segments. -/
def writeComponents (components : List (Option Payload)) (sink : Sink) :
    Except Fault Nat × Sink :=
  writeFrom 0 0 components sink

end Sink

/-- The blob of some components. Their number is not checked against any type. -/
def encode (components : List (Option Payload)) : Except Fault Bytes :=
  match Sink.unbounded.writeComponents components with
  | (.error fault, _) => .error fault
  | (.ok _, sink) => .ok sink.written

def encodeSegments (segments : List Segment) : Except Fault Bytes :=
  encode (segments.map (Option.map .bytes))

end TupleBlob
