import TupleBlob.Ty.Basic

/-! # Scalar types

The types without components: their names, how they order, check, print and parse the bytes of their
values, and which of them may take the place of which. A word is four bytes; the other types hold
their text or bytes as they are. Words are ordered by value, all other types byte by byte.
-/

namespace TupleBlob

/-- A type without components. A probe is a blob that has a multi-cell and a frozen form. -/
inductive Scalar
  | int32
  | utf8
  | ascii
  | bytes
  | probe (frozen : Bool)
deriving DecidableEq, Repr

namespace Scalar

def name : Scalar → String
  | .int32 => "Int32Type"
  | .utf8 => "UTF8Type"
  | .ascii => "AsciiType"
  | .bytes => "BytesType"
  | .probe false => "FreezeProbe(multi-cell)"
  | .probe true => "FreezeProbe(frozen)"

def freeze : Scalar → Scalar
  | .probe _ => .probe true
  | s => s

def isMultiCell : Scalar → Bool
  | .probe frozen => !frozen
  | _ => false

/-- Whether two scalars are of one kind. A probe is of the same kind frozen or not. -/
def sameKind : (s s' : Scalar) → Bool
  | .int32, .int32 | .utf8, .utf8 | .ascii, .ascii | .bytes, .bytes | .probe _, .probe _ => true
  | _, _ => false

end Scalar

/-! ## Values -/

def wordOf : Bytes → Except Fault Word
  | [a, b, c, d] => .ok (.ofBytes a b c d)
  | bytes => .error (.wordSize bytes.length)

/-- Passes bytes on if they are ASCII. -/
def asciiOf (bytes : Bytes) : Except Fault Bytes :=
  if bytes.isAscii then .ok bytes else .error .notAscii

def textOf (bytes : Bytes) : Except Fault String :=
  (Utf8.decode bytes).mapError .badUtf8

def bytesOfHex (text : String) : Except Fault Bytes :=
  (Hex.decode text).mapError .badHex

def bytesOfJsonText : Json → Except Fault Bytes
  | .str s => .ok (Utf8.encode s)
  | json => .error (.notText json)

namespace Scalar

def order (s : Scalar) (left right : Bytes) : Except Fault Ordering :=
  match s with
  | .int32 =>
    match wordOf left, wordOf right with
    | .error fault, _ => .error fault
    | .ok _, .error fault => .error fault
    | .ok l, .ok r => .ok (compare l.toInt r.toInt)
  | _ => .ok (compare left right)

def validate (s : Scalar) (bytes : Bytes) : Except Fault Unit :=
  match s with
  | .int32 => (wordOf bytes).map fun _ => ()
  | .utf8 => (textOf bytes).map fun _ => ()
  | .ascii => (asciiOf bytes).map fun _ => ()
  | .bytes | .probe _ => .ok ()

def toText (s : Scalar) (bytes : Bytes) : Except Fault String :=
  match s with
  | .int32 => (wordOf bytes).map Numeral.toText
  | .utf8 => textOf bytes
  | .ascii => (asciiOf bytes).bind textOf
  | .bytes | .probe _ => .ok (Hex.encode bytes)

def ofText (s : Scalar) (text : String) : Except Fault Bytes :=
  match s with
  | .int32 => ((Numeral.ofText text).mapError .badNumeral).map Word.toBytes
  | .utf8 => .ok (Utf8.encode text)
  | .ascii => asciiOf (Utf8.encode text)
  | .bytes | .probe _ => bytesOfHex text

/-- Plain bytes are marked by `0x` in JSON; the bytes of a probe are not. -/
def toJson (s : Scalar) (bytes : Bytes) : Except Fault Json :=
  match s with
  | .int32 => (wordOf bytes).map fun word => .int word.toInt
  | .utf8 => (textOf bytes).map .str
  | .ascii => ((asciiOf bytes).bind textOf).map .str
  | .bytes => .ok (.str ("0x" ++ Hex.encode bytes))
  | .probe _ => .ok (.str (Hex.encode bytes))

/-- A whole number past the signed numbers of 64 bits is refused like any other JSON; one among
them that is no word is out of range. -/
def maxSigned : Int := 9223372036854775807

def ofJson (s : Scalar) (json : Json) : Except Fault Bytes :=
  match s with
  | .int32 =>
    match json with
    | .num (.int n) =>
      if n ≤ maxSigned then ((Word.ofInt n).mapError .outOfRange).map Word.toBytes
      else .error (.notWord json)
    | .str text => Scalar.int32.ofText text
    | _ => .error (.notWord json)
  | .utf8 => bytesOfJsonText json
  | .ascii => (bytesOfJsonText json).bind asciiOf
  | .bytes =>
    match json with
    | .str text =>
      match text.toList with
      | '0' :: 'x' :: digits => bytesOfHex (String.ofList digits)
      | _ => .error (.unmarkedBytes text)
    | _ => .error (.notBytes json)
  | .probe _ =>
    match json with
    | .str text => bytesOfHex text
    | _ => .error (.notProbe json)

end Scalar

instance : ScalarType Scalar where
  name := Scalar.name
  sameKind := Scalar.sameKind
  freeze := Scalar.freeze
  isMultiCell := Scalar.isMultiCell
  order := Scalar.order
  validate := Scalar.validate
  toText := Scalar.toText
  ofText := Scalar.ofText
  toJson := Scalar.toJson
  ofJson := Scalar.ofJson

namespace ScalarType

variable (s : Scalar)

@[simp] theorem name_eq : name s = s.name := rfl

@[simp] theorem freeze_eq : freeze s = s.freeze := rfl

@[simp] theorem isMultiCell_eq : isMultiCell s = s.isMultiCell := rfl

@[simp] theorem toText_eq : toText s = s.toText := rfl

@[simp] theorem ofText_eq : ofText s = s.ofText := rfl

@[simp] theorem ofJson_eq : ofJson s = s.ofJson := rfl

end ScalarType

/-! ## Changes of type

Whether a type may take the place of a prior one for the values already written. A tuple may gain
components at its end, and each component that both have may change as its own type allows. Two
relations differ in what a scalar allows: the values keep their order, or the values are merely
still readable.
-/

namespace Ty

section Covers

variable {S : Type}

mutual

/-- Whether `t` may take the place of `prior`, where `accepts` decides for a scalar. -/
def covers (accepts : S → Ty S → Bool) : (t prior : Ty S) → Bool
  | .scalar s, prior => accepts s prior
  | .tuple _, .scalar _ => false
  | .tuple ts, .tuple priors => priors.length ≤ ts.length && coversShared accepts ts priors

/-- Decides the places that both lists have. -/
def coversShared (accepts : S → Ty S → Bool) : (ts priors : List (Ty S)) → Bool
  | t :: ts, prior :: priors => covers accepts t prior && coversShared accepts ts priors
  | _, _ => true

end

end Covers

/-- ASCII bytes are UTF-8 and sort the same, and both sort like plain bytes. -/
def scalarKeepsOrder (s : Scalar) (prior : Ty Scalar) : Bool :=
  (Ty.scalar s).same prior ||
    match s with
    | .utf8 => prior == .scalar .ascii
    | .bytes => prior == .scalar .ascii || prior == .scalar .utf8
    | _ => false

/-- Any bytes are plain bytes. -/
def scalarKeepsValues (s : Scalar) (prior : Ty Scalar) : Bool :=
  match s with
  | .bytes => true
  | s => scalarKeepsOrder s prior

/-- Values written under `prior` are readable under `t` and sort the same. -/
def keepsOrder (t prior : Ty Scalar) : Bool :=
  covers scalarKeepsOrder t prior

/-- Values written under `prior` are readable under `t`. -/
def keepsValues (t prior : Ty Scalar) : Bool :=
  covers scalarKeepsValues t prior

/-! ## Frozen types -/

@[simp] theorem isMultiCell_freeze (t : Ty Scalar) : t.freeze.isMultiCell = false := by
  rcases t with s | _
  · cases s <;> rfl
  · rfl

@[simp] theorem freeze_freeze (t : Ty Scalar) : t.freeze.freeze = t.freeze := by
  rcases t with s | _
  · cases s <;> rfl
  · rfl

end Ty

end TupleBlob
