import TupleBlob.Reader
import TupleBlob.Sink
import TupleBlob.Ty.Basic

/-! # Tuple literals

The text form of values. A tuple is the fields of its written components with a colon between them,
where `@` stands for a null. A colon inside a field, and an at sign, has a backslash before it; a
backslash itself has not, so a colon delimits unless an odd run of backslashes comes before it. A
component whose text could not be split off again is refused. A literal may have fewer fields than
the type has components, and then leaves the others unwritten.

Main statement: joining the fields that a text is split into gives the text back.
-/

namespace TupleBlob

/-! ## Fields -/

namespace Fields

/-- Puts a backslash before every `mark`. -/
def guardMark (mark : Char) (text : List Char) : List Char :=
  text.flatMap fun c => if c = mark then ['\\', mark] else [c]

/-- Drops every backslash right before a `mark`. -/
def bareMark (mark : Char) : List Char → List Char
  | [] => []
  | c :: rest =>
    if c = '\\' && rest.head? = some mark then bareMark mark rest else c :: bareMark mark rest

def escape (text : List Char) : List Char :=
  guardMark '@' (guardMark ':' text)

def unescape (field : List Char) : List Char :=
  bareMark '@' (bareMark ':' field)

/-- The first field and the other fields of a text; `odd` tells whether an odd run of backslashes
comes right before it. -/
def splitFrom (odd : Bool) : List Char → List Char × List (List Char)
  | [] => ([], [])
  | c :: rest =>
    if c = '\\' then
      let (field, fields) := splitFrom (!odd) rest
      (c :: field, fields)
    else
      let (field, fields) := splitFrom false rest
      if c = ':' && !odd then ([], field :: fields) else (c :: field, fields)

/-- The fields of a text. The empty text is one empty field. -/
def split (text : List Char) : List (List Char) :=
  let (field, fields) := splitFrom false text
  field :: fields

/-- Fields with a colon between each two. -/
def join : List (List Char) → List Char
  | [] => []
  | [field] => field
  | field :: next :: rest => field ++ ':' :: join (next :: rest)

/-- Whether a colon comes right after a backslash somewhere. -/
def hasGuardedColon : List Char → Bool
  | [] => false
  | c :: rest => (c = '\\' && rest.head? = some ':') || hasGuardedColon rest

/-- Whether a component's text, once escaped, may not be split off again. This is so for a colon
after a backslash, and for a backslash at the end when a delimiter follows. -/
def isAmbiguous (text : List Char) (isLast : Bool) : Bool :=
  hasGuardedColon text || (!isLast && text.getLast? = some '\\')

theorem join_splitFrom (odd : Bool) (text : List Char) :
    join ((splitFrom odd text).1 :: (splitFrom odd text).2) = text := by
  induction text generalizing odd with
  | nil => rfl
  | cons c rest ih =>
    have join_cons (c : Char) (field : List Char) (fields : List (List Char)) :
        join ((c :: field) :: fields) = c :: join (field :: fields) := by
      cases fields <;> rfl
    simp only [splitFrom]
    split
    · rw [join_cons, ih]
    · split
      · rename_i h
        simp only [Bool.and_eq_true, decide_eq_true_eq] at h
        simp only [join, List.nil_append, ih, h.1]
      · rw [join_cons, ih]

theorem join_split (text : List Char) : join (split text) = text :=
  join_splitFrom false text

end Fields

/-! ## Literals -/

namespace Ty

variable {S : Type} [ScalarType S]

def nullField : List Char := ['@']

mutual

def toText : Ty S → Bytes → Except Fault String
  | .scalar s, bytes => ScalarType.toText s bytes
  | .tuple ts, blob =>
    match split ts.length blob with
    | .error fault => .error fault
    | .ok segments =>
      (fieldsFrom 0 ts segments).map fun fields => String.ofList (Fields.join fields)

/-- The fields of segments of which the first has the given index. -/
def fieldsFrom (index : Nat) : List (Ty S) → List Segment → Except Fault (List (List Char))
  | _, [] => .ok []
  | [], _ :: _ => .ok []
  | _ :: ts, none :: rest => (fieldsFrom (index + 1) ts rest).map (nullField :: ·)
  | t :: ts, some payload :: rest =>
    match t.toText payload with
    | .error fault => .error fault
    | .ok text =>
      if Fields.isAmbiguous text.toList rest.isEmpty then .error (.ambiguousText index text)
      else (fieldsFrom (index + 1) ts rest).map (Fields.escape text.toList :: ·)

end

mutual

def ofText : Ty S → String → Except Fault Bytes
  | .scalar s, text => ScalarType.ofText s text
  | .tuple ts, text =>
    let fields := Fields.split text.toList
    if ts.length < fields.length then
      .error (.tooManyFields (Ty.tuple ts).name ts.length fields.length)
    else
      match ofFields ts fields with
      | .error fault => .error fault
      | .ok segments => encodeSegments segments

def ofFields : List (Ty S) → List (List Char) → Except Fault (List Segment)
  | t :: ts, field :: fields =>
    if field = nullField then (ofFields ts fields).map (none :: ·)
    else
      match t.ofText (String.ofList (Fields.unescape field)) with
      | .error fault => .error fault
      | .ok payload => (ofFields ts fields).map (some payload :: ·)
  | _, _ => .ok []

end

end Ty

end TupleBlob
